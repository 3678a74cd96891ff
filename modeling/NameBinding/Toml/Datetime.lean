import NameBinding.Toml.Quoted

/-!
# Dates and times in TOML

* `isDate`, `isTime`, `isDatetime` — the words that name a day, a time of day, or a
  day with a time and perhaps a distance from universal time.
-/

namespace NameBinding
namespace Toml

/-- A number of exactly `n` decimal digits. -/
def fixedDigits (n : Nat) : Reader Nat := fun cs =>
  let ds := cs.take n
  if ds.length = n && ds.all Char.isDigit then
    some (ds.foldl (fun m c => 10 * m + (c.toNat - '0'.toNat)) 0, cs.drop n)
  else none

/-- A number of two digits between two bounds. -/
def between (low high : Nat) : Reader Nat := fun cs => do
  let (n, rest) ← fixedDigits 2 cs
  if low ≤ n && n ≤ high then some (n, rest) else none

/-- The text after a given character. -/
def after? (c : Char) : List Char → Option (List Char)
  | d :: rest => if d = c then some rest else none
  | [] => none

/-- The number of days of a month. -/
def daysOf (year month : Nat) : Nat :=
  if month = 2 then
    if year % 4 = 0 && (year % 100 != 0 || year % 400 = 0) then 29 else 28
  else if month = 4 || month = 6 || month = 9 || month = 11 then 30
  else 31

/-- What follows a date. -/
def dateRest? (cs : List Char) : Option (List Char) := do
  let (year, cs) ← fixedDigits 4 cs
  let (month, cs) ← between 1 12 (← after? '-' cs)
  let (_, cs) ← between 1 (daysOf year month) (← after? '-' cs)
  return cs

/-- What follows a time of day, with a fraction of a second or without. -/
def timeRest? (cs : List Char) : Option (List Char) := do
  let (_, cs) ← between 0 23 cs
  let (_, cs) ← between 0 59 (← after? ':' cs)
  let (_, cs) ← between 0 60 (← after? ':' cs)
  match cs with
  | '.' :: d :: rest => if d.isDigit then return rest.dropWhile Char.isDigit else none
  | '.' :: [] => none
  | _ => return cs

/-- Is the text a distance from universal time, or none at all? -/
def isOffset (cs : List Char) : Bool :=
  match cs with
  | [] | ['Z'] | ['z'] => true
  | c :: rest =>
      (c == '+' || c == '-') &&
        ((do
          let (_, rest) ← between 0 23 rest
          let (_, rest) ← between 0 59 (← after? ':' rest)
          return rest) : Option (List Char)) == some []

/-- Is the word a date? -/
def isDate (word : List Char) : Bool := dateRest? word == some []

/-- Is the word a time of day? -/
def isTime (word : List Char) : Bool := timeRest? word == some []

/-- Is the word a time of day, perhaps with a distance from universal time? -/
def isOffsetTime (word : List Char) : Bool := (timeRest? word).any isOffset

/-- Is the word a date, a time, or both? -/
def isDatetime (word : List Char) : Bool :=
  isTime word ||
    match dateRest? word with
    | none => false
    | some [] => true
    | some (c :: rest) => (c == 'T' || c == 't') && isOffsetTime rest

end Toml
end NameBinding
