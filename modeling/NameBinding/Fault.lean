/-!
# Faults and bounded sizes

Byte offsets, rows, columns, node indices and counts are natural numbers below
`2 ^ 64`. Arithmetic on them is exact or stops with a `Fault`: nothing wraps
around, and nothing is cut off at zero.

* `Fault` — the bounds that can be broken, with the text reported for each.
* `Size.add`, `Size.sub` — the sum and the difference of two sizes.
-/

namespace NameBinding

/-- A broken bound. -/
inductive Fault where
  /-- A span whose start lies after its end. -/
  | reversedSpan
  /-- A sum that is no longer below `2 ^ 64`. -/
  | sumTooLarge
  /-- A difference below zero. -/
  | negativeDifference
  /-- An edge between nodes of which one does not exist. -/
  | missingEndpoint
  deriving DecidableEq, Repr

/-- The text a fault is reported with. -/
def Fault.message : Fault → String
  | .reversedSpan => "range start after end"
  | .sumTooLarge => "attempt to add with overflow"
  | .negativeDifference => "attempt to subtract with overflow"
  | .missingEndpoint => "Graph::add_edge: node indices out of bounds"

namespace Size

/-- Every size is below this bound. -/
def bound : Nat := 0x10000000000000000

/-- The sum of two sizes, if it is a size. -/
def add (a b : Nat) : Except Fault Nat :=
  if a + b < bound then .ok (a + b) else .error .sumTooLarge

/-- The difference of two sizes, if it is a size. -/
def sub (a b : Nat) : Except Fault Nat :=
  if b ≤ a then .ok (a - b) else .error .negativeDifference

end Size

end NameBinding
