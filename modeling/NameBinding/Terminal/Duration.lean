/-!
# Durations in words

A duration is told in one unit, as coarse as possible while at least about one and
a half of the unit have passed.

* `Duration.text` — a number of milliseconds in words.
-/

namespace NameBinding
namespace Duration

/-- A unit of time: its milliseconds and its name. -/
structure TimeUnit where
  millis : Nat
  name : String
  deriving Repr

def second : TimeUnit := ⟨1000, "second"⟩

/-- The units above the second, from the coarsest on. -/
def coarseUnits : List TimeUnit :=
  [⟨365 * 86400000, "year"⟩, ⟨7 * 86400000, "week"⟩, ⟨86400000, "day"⟩, ⟨3600000, "hour"⟩,
    ⟨60000, "minute"⟩]

/-- The first unit that is not too coarse for a duration. -/
def unitFor (millis : Nat) : List TimeUnit → TimeUnit
  | [] => second
  | u :: us =>
      let finer := us.headD second
      if u.millis + u.millis / 2 ≤ millis + finer.millis / 2 then u else unitFor millis us

/-- The duration in a unit, rounded; a half is rounded up. -/
def count (millis : Nat) (u : TimeUnit) : Nat := (2 * millis + u.millis) / (2 * u.millis)

/-- A number of milliseconds in words. -/
def text (millis : Nat) : String :=
  let u := unitFor millis coarseUnits
  let n := if u.name == second.name then count millis u else max 2 (count millis u)
  s!"{n} {u.name}" ++ if n = 1 then "" else "s"

end Duration
end NameBinding
