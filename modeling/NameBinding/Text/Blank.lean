import NameBinding.Text.Ranges

/-!
# Blank characters

The characters that count as white space at the ends of a text: those with the
Unicode property `White_Space`.

* `isBlank` — the property.
* `trimStart`, `trimEnd` — a text without the blanks before or after it.
-/

namespace NameBinding
namespace Text

/-- The code points of white space, as closed intervals in increasing order. -/
def blankRanges : List (Nat × Nat) :=
  [(0x09, 0x0D), (0x20, 0x20), (0x85, 0x85), (0xA0, 0xA0), (0x1680, 0x1680),
    (0x2000, 0x200A), (0x2028, 0x2029), (0x202F, 0x202F), (0x205F, 0x205F), (0x3000, 0x3000)]

/-- Is the character white space? -/
def isBlank (c : Char) : Bool := inRanges blankRanges c

/-- The text without the blanks it starts with. -/
def trimStart (cs : List Char) : List Char := cs.dropWhile isBlank

/-- The text without the blanks it ends with. -/
def trimEnd (cs : List Char) : List Char := (cs.reverse.dropWhile isBlank).reverse

end Text
end NameBinding
