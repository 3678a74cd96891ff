import NameBinding.Toml.Datetime
import NameBinding.Toml.Document
import NameBinding.Toml.Number

/-!
# Reading TOML

* `Toml.value` — a value; arrays and inline tables nest less than eighty deep.
* `Toml.keyPath` — a dotted key of less than eighty parts.
* `Toml.parse?` — the table of a whole document.

A document is refused as a whole: there is no partial answer.
-/

namespace NameBinding
namespace Toml

/-- Arrays, inline tables and dotted keys have to stay below this depth. -/
def depthLimit : Nat := 80

/-- The text without the blanks at its start. -/
def skipSpace (cs : List Char) : List Char := cs.dropWhile isSpace

/-- What follows blanks, line breaks and comments. -/
def skipVoid (inComment : Bool) : List Char → Option (List Char)
  | [] => some []
  | '\r' :: '\n' :: rest => skipVoid false rest
  | c :: rest =>
      if c == '\n' then skipVoid false rest
      else if inComment then if isControl c then none else skipVoid true rest
      else if isSpace c then skipVoid false rest
      else if c == '#' then skipVoid true rest
      else some (c :: rest)

/-- What follows the end of a line, which may hold a comment. -/
def skipLine (inComment : Bool) : List Char → Option (List Char)
  | [] => some []
  | '\r' :: '\n' :: rest => some rest
  | c :: rest =>
      if c == '\n' then some rest
      else if inComment then if isControl c then none else skipLine true rest
      else if isSpace c then skipLine false rest
      else if c == '#' then skipLine true rest
      else none

/-! ### Keys -/

/-- One part of a key. -/
def keyPart : Reader String
  | '"' :: rest => (basic rest).map fun (t, r) => (String.ofList t, r)
  | '\x27' :: rest => (literal rest).map fun (t, r) => (String.ofList t, r)
  | cs =>
      match cs.takeWhile isBare with
      | [] => none
      | word => some (String.ofList word, cs.dropWhile isBare)

/-- The parts of a dotted key, with blanks around them; at most `n`. -/
def keyParts : Nat → Reader (List String)
  | 0, _ => none
  | n + 1, cs => do
      let (part, rest) ← keyPart (skipSpace cs)
      match skipSpace rest with
      | '.' :: rest => do
          let (parts, rest) ← keyParts n rest
          return (part :: parts, rest)
      | rest => return ([part], rest)

/-- A dotted key: the path, the last part, and what follows. -/
def keyPath (cs : List Char) : Option ((List String × String) × List Char) := do
  let (parts, rest) ← keyParts (depthLimit - 1) cs
  return ((parts.dropLast, ← parts.getLast?), rest)

/-! ### Values -/

/-- The characters of numbers, dates and the names of truth values. -/
def isWordChar (c : Char) : Bool :=
  c.isAlphanum || c == '+' || c == '-' || c == '_' || c == '.' || c == ':'

/-- A value written as a word. A date may be followed by a blank and a time. -/
def word (cs : List Char) : Option (Toml × List Char) :=
  let w := cs.takeWhile isWordChar
  let rest := cs.dropWhile isWordChar
  if w == "true".toList then some (.boolean true, rest)
  else if w == "false".toList then some (.boolean false, rest)
  else if isDate w then
    match rest with
    | ' ' :: rest' =>
        let time := rest'.takeWhile isWordChar
        if isOffsetTime time then
          some (.datetime (String.ofList (w ++ ' ' :: time)), rest'.dropWhile isWordChar)
        else some (.datetime (String.ofList w), rest)
    | _ => some (.datetime (String.ofList w), rest)
  else if isDatetime w then some (.datetime (String.ofList w), rest)
  else if isFloat w then some (.float (String.ofList w), rest)
  else (integer? w).map fun n => (.integer n, rest)

/-- The rest of an array, at most `n` items of it. Every item is followed by a comma or
the end; line breaks and comments may stand anywhere between them. -/
def arrayRest (item : Reader Toml) : Nat → Reader (List Toml)
  | 0, _ => none
  | n + 1, cs => do
      match ← skipVoid false cs with
      | ']' :: rest => return ([], rest)
      | cs => do
          let (v, rest) ← item cs
          match ← skipVoid false rest with
          | ',' :: rest => do
              let (vs, rest) ← arrayRest item n rest
              return (v :: vs, rest)
          | ']' :: rest => return ([v], rest)
          | _ => none

/-- A key, its value and what follows. -/
def pair (item : Reader Toml) (cs : List Char) :
    Option ((List String × String × Toml) × List Char) := do
  let ((path, key), rest) ← keyPath cs
  let rest ← after? '=' rest
  let (v, rest) ← item (skipSpace rest)
  return ((path, key, v), rest)

/-- The pairs of an inline table, at most `n` of them, after the ones in `s`. -/
def inlinePairs (item : Reader Toml) : Nat → Section → Reader Section
  | 0, _, _ => none
  | n + 1, s, cs => do
      let ((path, key, v), rest) ← pair item cs
      let s ← s.insert? path key v
      match skipSpace rest with
      | ',' :: rest => inlinePairs item n s rest
      | '\x7d' :: rest => return (s, rest)
      | _ => none

/-- The rest of an inline table: it stays on its line and has no comma at its end. -/
def inlineRest (item : Reader Toml) (cs : List Char) : Option (Toml × List Char) :=
  match skipSpace cs with
  | '\x7d' :: rest => some (.table [], rest)
  | cs => (inlinePairs item cs.length [] cs).map fun (s, rest) => (s.toToml, rest)

/-- A value in which arrays and inline tables nest at most `depth` deep. -/
def value : Nat → Reader Toml
  | depth, cs =>
      match depth, cs with
      | _, '"' :: _ | _, '\x27' :: _ => (quoted cs).map fun (t, r) => (.string t, r)
      | 0, '[' :: _ | 0, '\x7b' :: _ => none
      | d + 1, '[' :: rest => (arrayRest (value d) cs.length rest).map fun (vs, r) => (.array vs, r)
      | d + 1, '\x7b' :: rest => inlineRest (value d) rest
      | _, _ => word cs

/-! ### Documents -/

/-- A document that has been read up to some line. -/
structure Progress where
  /-- The path of the last header. -/
  header : List String := []
  content : Section := []

/-- A header, after its first bracket. -/
def readHeader (p : Progress) : List Char → Option (Progress × List Char)
  | '[' :: cs => do
      let ((path, key), rest) ← keyPath cs
      let rest ← after? ']' (← after? ']' rest)
      return (⟨path ++ [key], ← p.content.openElement? path key⟩, rest)
  | cs => do
      let ((path, key), rest) ← keyPath cs
      let rest ← after? ']' rest
      return (⟨path ++ [key], ← p.content.openTable? path key⟩, rest)

/-- A line with a key and a value. -/
def readPair (p : Progress) (cs : List Char) : Option (Progress × List Char) := do
  let ((path, key, v), rest) ← pair (value (depthLimit - 1)) cs
  return ({ p with content := ← p.content.insertBelow? p.header path key v }, rest)

/-- The lines of a document, at most `n` of them. -/
def readLines : Nat → Progress → List Char → Option Section
  | 0, _, _ => none
  | n + 1, p, cs => do
      match ← skipVoid false cs with
      | [] => return p.content
      | '[' :: rest => do
          let (p, rest) ← readHeader p rest
          readLines n p (← skipLine false rest)
      | cs => do
          let (p, rest) ← readPair p cs
          readLines n p (← skipLine false rest)

/-- The entries of a document; a byte order mark at its start does not count. -/
def parse? (text : String) : Option (List (String × Toml)) :=
  let cs := match text.toList with
    | '\uFEFF' :: cs => cs
    | cs => cs
  (readLines (cs.length + 1) {} cs).map Section.toEntries

end Toml
end NameBinding
