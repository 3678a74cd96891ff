/-!
# Character classes as intervals

A class of characters is a list of closed intervals of code points.
-/

namespace NameBinding
namespace Text

/-- Is the character in one of the intervals? -/
def inRanges (ranges : List (Nat × Nat)) (c : Char) : Bool :=
  ranges.any fun r => r.1 ≤ c.toNat && c.toNat ≤ r.2

end Text
end NameBinding
