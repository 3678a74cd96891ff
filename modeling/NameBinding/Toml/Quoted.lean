import NameBinding.Toml.Basic

/-!
# Quoted text in TOML

Four ways to quote a text: basic strings with escapes and literal strings without
them, each on one line or on several. A reader is given what follows the opening
quotes and returns the text and what follows the closing quotes.

* `basic`, `literal`, `multilineBasic`, `multilineLiteral`.
* `quoted` — any of the four, chosen by the opening quotes.
-/

namespace NameBinding
namespace Toml

/-- A reader takes something off the front of a text, or refuses the text. -/
abbrev Reader (α : Type) := List Char → Option (α × List Char)

/-- Put a character before the text that was read. -/
def consRead (c : Char) (r : Option (List Char × List Char)) : Option (List Char × List Char) :=
  r.map fun (text, rest) => (c :: text, rest)

/-- The value of a hexadecimal digit. -/
def hexValue? (c : Char) : Option Nat :=
  if '0' ≤ c && c ≤ '9' then some (c.toNat - '0'.toNat)
  else if 'a' ≤ c && c ≤ 'f' then some (c.toNat - 'a'.toNat + 10)
  else if 'A' ≤ c && c ≤ 'F' then some (c.toNat - 'A'.toNat + 10)
  else none

/-- The number written with some hexadecimal digits. -/
def hexNumber? (digits : List Char) : Option Nat :=
  digits.foldlM (fun n c => (hexValue? c).map (16 * n + ·)) 0

/-- The character with a code point written in hexadecimal digits. -/
def hexChar? (digits : List Char) : Option Char :=
  (hexNumber? digits).bind fun n => if n.isValidChar then some (Char.ofNat n) else none

/-- The character of a one-letter escape. -/
def shortEscape? : Char → Option Char
  | 'b' => some '\x08'
  | 't' => some '\t'
  | 'n' => some '\n'
  | 'f' => some '\x0c'
  | 'r' => some '\r'
  | '"' => some '"'
  | '\\' => some '\\'
  | _ => none

/-- The rest of a basic string. -/
def basic : Reader (List Char)
  | [] => none
  | '"' :: rest => some ([], rest)
  | '\\' :: 'u' :: a :: b :: c :: d :: rest => do
      consRead (← hexChar? [a, b, c, d]) (basic rest)
  | '\\' :: 'U' :: a :: b :: c :: d :: e :: f :: g :: h :: rest => do
      consRead (← hexChar? [a, b, c, d, e, f, g, h]) (basic rest)
  | '\\' :: c :: rest => do consRead (← shortEscape? c) (basic rest)
  | c :: rest => if c == '\\' || isControl c then none else consRead c (basic rest)

/-- The rest of a literal string. -/
def literal : Reader (List Char)
  | [] => none
  | c :: rest =>
      if c == '\x27' then some ([], rest)
      else if isControl c then none
      else consRead c (literal rest)

/-- Does a line break come next, after blanks at most? -/
def lineBreakAhead (cs : List Char) : Bool :=
  match cs.dropWhile isSpace with
  | '\n' :: _ => true
  | '\r' :: '\n' :: _ => true
  | _ => false

/-- The rest of a basic string of several lines. While `joining`, after a backslash at
the end of a line, blanks and line breaks are passed over. Up to two quotes may stand
right before the closing ones. -/
def multilineBasicFrom (joining : Bool) : Reader (List Char)
  | [] => none
  | '"' :: '"' :: '"' :: '"' :: '"' :: rest => some (['"', '"'], rest)
  | '"' :: '"' :: '"' :: '"' :: rest => some (['"'], rest)
  | '"' :: '"' :: '"' :: rest => some ([], rest)
  | '\r' :: '\n' :: rest =>
      if joining then multilineBasicFrom true rest
      else consRead '\n' (multilineBasicFrom false rest)
  | '\\' :: 'u' :: a :: b :: c :: d :: rest => do
      consRead (← hexChar? [a, b, c, d]) (multilineBasicFrom false rest)
  | '\\' :: 'U' :: a :: b :: c :: d :: e :: f :: g :: h :: rest => do
      consRead (← hexChar? [a, b, c, d, e, f, g, h]) (multilineBasicFrom false rest)
  | '\\' :: c :: rest =>
      match shortEscape? c with
      | some e => consRead e (multilineBasicFrom false rest)
      | none => if lineBreakAhead (c :: rest) then multilineBasicFrom true (c :: rest) else none
  | c :: rest =>
      if joining && (isSpace c || c == '\n') then multilineBasicFrom true rest
      else if c == '\\' || (isControl c && c != '\n') then none
      else consRead c (multilineBasicFrom false rest)

/-- The rest of a literal string of several lines. -/
def multilineLiteralFrom : Reader (List Char)
  | [] => none
  | '\x27' :: '\x27' :: '\x27' :: '\x27' :: '\x27' :: rest => some (['\x27', '\x27'], rest)
  | '\x27' :: '\x27' :: '\x27' :: '\x27' :: rest => some (['\x27'], rest)
  | '\x27' :: '\x27' :: '\x27' :: rest => some ([], rest)
  | '\r' :: '\n' :: rest => consRead '\n' (multilineLiteralFrom rest)
  | c :: rest =>
      if isControl c && c != '\n' then none else consRead c (multilineLiteralFrom rest)

/-- The text without a line break at its start. -/
def dropLineBreak : List Char → List Char
  | '\n' :: rest => rest
  | '\r' :: '\n' :: rest => rest
  | cs => cs

/-- The rest of a basic string of several lines; a line break after the opening quotes
does not count. -/
def multilineBasic (cs : List Char) : Option (List Char × List Char) :=
  multilineBasicFrom false (dropLineBreak cs)

/-- The rest of a literal string of several lines; a line break after the opening
quotes does not count. -/
def multilineLiteral (cs : List Char) : Option (List Char × List Char) :=
  multilineLiteralFrom (dropLineBreak cs)

/-- A quoted text. -/
def quoted : Reader String
  | '"' :: '"' :: '"' :: rest => (multilineBasic rest).map fun (t, r) => (String.ofList t, r)
  | '"' :: rest => (basic rest).map fun (t, r) => (String.ofList t, r)
  | '\x27' :: '\x27' :: '\x27' :: rest =>
      (multilineLiteral rest).map fun (t, r) => (String.ofList t, r)
  | '\x27' :: rest => (literal rest).map fun (t, r) => (String.ofList t, r)
  | _ => none

end Toml
end NameBinding
