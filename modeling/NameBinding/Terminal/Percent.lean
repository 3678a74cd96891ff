/-!
# Percentages

The share of a part in a whole is a double: the part times one hundred, divided by
the whole, each step rounded. It is shown with one decimal place, and of two
equally close tenths the even one is taken.

* `roundHalfEven` — the natural number closest to a quotient.
* `Percent.text` — the share of a part in a whole.
-/

namespace NameBinding

/-- The natural number closest to `num / den`; of two, the even one. -/
def roundHalfEven (num den : Nat) : Nat :=
  let q := num / den
  let twice := 2 * (num % den)
  if twice < den then q else if den < twice then q + 1 else if q % 2 = 0 then q else q + 1

namespace Percent

/-- The nearest tenth of a double that is not negative, counted in tenths. The double
is `m * 2 ^ (e - 1075)` for the two parts `m`, `e` of its bits. -/
def tenths (x : Float) : Nat :=
  let bits := x.toBits.toNat
  let exponent := bits / Nat.pow 2 52 % Nat.pow 2 11
  let m := bits % Nat.pow 2 52 + if exponent = 0 then 0 else Nat.pow 2 52
  let e := max exponent 1
  if 1075 ≤ e then 10 * m * Nat.pow 2 (e - 1075) else roundHalfEven (10 * m) (Nat.pow 2 (1075 - e))

/-- The share of `part` in `whole`, with one decimal place. -/
def text (part whole : Nat) : String :=
  let x := part.toUInt64.toFloat * 100 / whole.toUInt64.toFloat
  s!"{tenths x / 10}.{tenths x % 10}%"

end Percent
end NameBinding
