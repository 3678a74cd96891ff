import NameBinding.Fault
import NameBinding.Text.Offset

/-!
# Lines and columns

* `startOfLine?` — where a line begins; lines are counted from one.
* `offsetAt` — the byte offset of a line and a column. A column may be just after the
  last byte of its line.
-/

namespace NameBinding
namespace Text

/-- Where a line begins, if there is such a line. Line zero counts as line one. -/
def startOfLine? (cs : List Char) (line : Nat) : Option Nat :=
  if line ≤ 1 then some 0 else (newlines cs)[line - 2]?.map (· + 1)

/-- The byte offset of a line and a column, if the column is in the line. Column zero
counts as column one. -/
def offsetAt (cs : List Char) (line column : Nat) : Except Fault (Option Nat) :=
  match startOfLine? cs line with
  | none => .ok none
  | some start => do
      let offset ← Size.add start (column - 1)
      return if offset ≤ lineStop cs start then some offset else none

end Text
end NameBinding
