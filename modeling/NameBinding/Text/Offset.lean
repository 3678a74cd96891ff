/-!
# Byte offsets into a text

A text is a list of characters, and positions in it are byte offsets of its
UTF-8 form. An offset may fall inside a character; cutting a text there is
refused.

* `byteLength` — the number of bytes of a text.
* `slice?` — the characters between two offsets.
* `newlines` — the offsets of the line breaks, in increasing order.
* `lineStart`, `lineStop` — where the line around an offset begins and ends.
-/

namespace NameBinding
namespace Text

/-- The number of bytes of a text. -/
def byteLength : List Char → Nat
  | [] => 0
  | c :: cs => c.utf8Size + byteLength cs

/-- What follows the first `n` bytes, if they end between two characters. -/
def dropBytes? : List Char → Nat → Option (List Char)
  | cs, 0 => some cs
  | [], _ + 1 => none
  | c :: cs, n + 1 => if c.utf8Size ≤ n + 1 then dropBytes? cs (n + 1 - c.utf8Size) else none

/-- The first `n` bytes, if they end between two characters. -/
def takeBytes? : List Char → Nat → Option (List Char)
  | _, 0 => some []
  | [], _ + 1 => none
  | c :: cs, n + 1 =>
      if c.utf8Size ≤ n + 1 then (takeBytes? cs (n + 1 - c.utf8Size)).map (c :: ·) else none

/-- The characters from offset `start` to offset `stop`, if both lie between two
characters of the text and `start` is not the greater one. -/
def slice? (cs : List Char) (start stop : Nat) : Option (List Char) :=
  if start ≤ stop then (dropBytes? cs start).bind (takeBytes? · (stop - start)) else none

/-- The offsets of the line breaks of a text that begins at offset `base`. -/
def newlinesFrom (base : Nat) : List Char → List Nat
  | [] => []
  | c :: cs =>
      if c = '\n' then base :: newlinesFrom (base + c.utf8Size) cs
      else newlinesFrom (base + c.utf8Size) cs

/-- The offsets of the line breaks of a text. -/
def newlines (cs : List Char) : List Nat := newlinesFrom 0 cs

/-- Where the line holding `offset` begins: just after the last line break before
it, or at the start of the text. -/
def lineStart (cs : List Char) (offset : Nat) : Nat :=
  match ((newlines cs).filter (· < offset)).getLast? with
  | some n => n + 1
  | none => 0

/-- Where the line holding `offset` ends: at the first line break from there on, or
at the end of the text. -/
def lineStop (cs : List Char) (offset : Nat) : Nat :=
  ((newlines cs).find? (offset ≤ ·)).getD (byteLength cs)

end Text
end NameBinding
