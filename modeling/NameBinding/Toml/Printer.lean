import NameBinding.Toml.Basic

/-!
# Writing TOML

* `Quoting.ofText` — the quotes a text is written in: the plainest that need no
  escapes, or else a basic string with escapes.
* `Toml.stringText`, `Toml.keyText`, `Toml.arrayText` — written values and keys.
* `Toml.pairLine`, `Toml.headerLine` — the lines of a document.
-/

namespace NameBinding
namespace Toml

/-- The four ways to quote a text. -/
inductive Quoting where
  | basic
  | literal
  | multilineBasic
  | multilineLiteral
  deriving DecidableEq, Repr

/-- Does a character stand three times in a row? -/
def hasTriple (c : Char) : List Char → Bool
  | a :: b :: d :: rest => (a == c && b == c && d == c) || hasTriple c (b :: d :: rest)
  | _ => false

/-- Does the text have a character, other than a line break, that only an escape can
write? -/
def needsEscape (cs : List Char) : Bool := cs.any fun c => isControl c && c != '\n'

/-- The quotes for a text. One line is preferred to several, and then basic strings to
literal ones. Texts that need escapes are basic strings, on several lines if they have
a line break. -/
def Quoting.ofText (cs : List Char) : Quoting :=
  let newline := cs.contains '\n'
  let backslash := cs.contains '\\'
  if needsEscape cs then if newline then .multilineBasic else .basic
  else if !newline && !backslash && !cs.contains '"' then .basic
  else if !newline && !cs.contains '\x27' then .literal
  else if !backslash && !hasTriple '"' cs then .multilineBasic
  else if !hasTriple '\x27' cs then .multilineLiteral
  else if newline then .multilineBasic
  else .basic

/-- An upper-case hexadecimal digit. -/
def hexDigit (n : Nat) : Char :=
  if n < 10 then Char.ofNat ('0'.toNat + n) else Char.ofNat ('A'.toNat + (n - 10))

/-- A character of a basic string, quotes apart. -/
def escapeChar (multiline : Bool) (c : Char) : List Char :=
  if c == '\x08' then ['\\', 'b']
  else if c == '\t' then ['\\', 't']
  else if c == '\n' then if multiline then ['\n'] else ['\\', 'n']
  else if c == '\x0c' then ['\\', 'f']
  else if c == '\r' then ['\\', 'r']
  else if c == '\\' then ['\\', '\\']
  else if isControl c then ['\\', 'u', '0', '0', hexDigit (c.toNat / 16), hexDigit (c.toNat % 16)]
  else [c]

/-- The inside of a basic string. On several lines up to two quotes in a row stay as
they are; `quotes` counts those just written. -/
def escape (multiline : Bool) (quotes : Nat) : List Char → List Char
  | [] => []
  | c :: cs =>
      if c == '"' then
        if multiline && quotes < 2 then '"' :: escape multiline (quotes + 1) cs
        else '\\' :: '"' :: escape multiline 0 cs
      else escapeChar multiline c ++ escape multiline 0 cs

/-- The line break after the opening quotes of a text of several lines. -/
def opening (cs : List Char) : List Char := if cs.contains '\n' then ['\n'] else []

/-- A text in given quotes. -/
def Quoting.write (cs : List Char) : Quoting → List Char
  | .basic => '"' :: escape false 0 cs ++ ['"']
  | .literal => '\x27' :: cs ++ ['\x27']
  | .multilineBasic => ['"', '"', '"'] ++ opening cs ++ escape true 0 cs ++ ['"', '"', '"']
  | .multilineLiteral =>
      ['\x27', '\x27', '\x27'] ++ opening cs ++ cs ++ ['\x27', '\x27', '\x27']

/-- A written text. -/
def stringText (s : String) : String :=
  String.ofList ((Quoting.ofText s.toList).write s.toList)

/-- The quotes for a key that is not bare; keys stay on one line. -/
def Quoting.ofKey (cs : List Char) : Quoting :=
  if cs.any isControl then .basic
  else if !cs.contains '\\' && !cs.contains '"' then .basic
  else if !cs.contains '\x27' then .literal
  else .basic

/-- A written key. -/
def keyText (key : String) : String :=
  if key.toList.all isBare && !key.isEmpty then key
  else String.ofList ((Quoting.ofKey key.toList).write key.toList)

/-- A written array of written items: up to one item on one line, several on lines of
their own. -/
def arrayText : List String → String
  | [] => "[]"
  | [item] => "[" ++ item ++ "]"
  | items => "[\n" ++ String.join (items.map fun item => "    " ++ item ++ ",\n") ++ "]"

/-- A line with a key and a written value. -/
def pairLine (key value : String) : String := keyText key ++ " = " ++ value ++ "\n"

/-- The header of a table. -/
def headerLine (path : List String) : String := "[" ++ ".".intercalate (path.map keyText) ++ "]\n"

end Toml
end NameBinding
