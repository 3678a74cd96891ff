import NameBinding.Toml.Quoted

/-!
# Numbers in TOML

* `integer?` — decimal, hexadecimal, octal and binary integers of 64 bits.
* `isFloat` — floating point numbers that are not too large.

Digits may be divided by single underscores.
-/

namespace NameBinding
namespace Toml

/-- The digits of a number without the underscores between them, if every underscore
stands between two digits. -/
def digitRun? (isDigit : Char → Bool) : List Char → Option (List Char)
  | [] => none
  | [c] => if isDigit c then some [c] else none
  | c :: '_' :: cs => if isDigit c then (digitRun? isDigit cs).map (c :: ·) else none
  | c :: cs => if isDigit c then (digitRun? isDigit cs).map (c :: ·) else none

/-- The number written with digits in a base. -/
def inBase (base : Nat) (digits : List Char) : Nat :=
  digits.foldl (fun n c => base * n + (hexValue? c).getD 0) 0

/-- Split off a sign. -/
def splitSign : List Char → Option Char × List Char
  | '+' :: cs => (some '+', cs)
  | '-' :: cs => (some '-', cs)
  | cs => (none, cs)

/-- The digits of a decimal integer without its sign: no zero before other digits. -/
def decimal? (cs : List Char) : Option (List Char) :=
  match cs with
  | '0' :: _ :: _ => none
  | _ => digitRun? Char.isDigit cs

/-- A value that fits into a signed integer of 64 bits. -/
def fitting (n : Int) : Option Int := if -0x8000000000000000 ≤ n && n < 0x8000000000000000 then some n else none

/-- The integer a word stands for. -/
def integer? (word : List Char) : Option Int :=
  match word with
  | '0' :: 'x' :: cs =>
      (digitRun? (fun c => (hexValue? c).isSome) cs).bind fun ds => fitting (inBase 16 ds)
  | '0' :: 'o' :: cs =>
      (digitRun? (fun c => '0' ≤ c && c ≤ '7') cs).bind fun ds => fitting (inBase 8 ds)
  | '0' :: 'b' :: cs =>
      (digitRun? (fun c => c == '0' || c == '1') cs).bind fun ds => fitting (inBase 2 ds)
  | _ =>
      let (sign, cs) := splitSign word
      (decimal? cs).bind fun ds =>
        fitting (if sign = some '-' then -(inBase 10 ds : Int) else inBase 10 ds)

/-- The parts of a word around its exponent mark. -/
def splitExponent (word : List Char) : List Char × Option (List Char) :=
  let isMark (c : Char) : Bool := c == 'e' || c == 'E'
  match word.dropWhile (!isMark ·) with
  | [] => (word, none)
  | _ :: exponent => (word.takeWhile (!isMark ·), some exponent)

/-- The parts of a word around its point. -/
def splitPoint (word : List Char) : List Char × Option (List Char) :=
  match word.dropWhile (· != '.') with
  | [] => (word, none)
  | _ :: fraction => (word.takeWhile (· != '.'), some fraction)

/-- The least number that is rounded to infinity as a double: it is halfway between the
greatest double and `2 ^ 1024`. -/
def doubleBound : Nat := Nat.pow 2 1024 - Nat.pow 2 970

/-- Is `digits * 10 ^ exponent` rounded to infinity as a double? -/
def tooLarge (digits : Nat) (exponent : Int) : Bool :=
  let length := (Nat.repr digits).length + exponent
  if digits = 0 || length < 300 then false
  else if 320 < length then true
  else if 0 ≤ exponent then doubleBound ≤ digits * Nat.pow 10 exponent.toNat
  else doubleBound * Nat.pow 10 (-exponent).toNat ≤ digits

/-- Is the word a floating point number? It needs a fraction or an exponent, or is a
name for an infinity or for no number. A positive number must not be too large. -/
def isFloat (word : List Char) : Bool :=
  let (sign, cs) := splitSign word
  if cs == ['i', 'n', 'f'] || cs == ['n', 'a', 'n'] then true
  else
    let (mantissa, exponent) := splitExponent cs
    let (whole, fraction) := splitPoint mantissa
    let exponentDigits := exponent.map fun e => digitRun? Char.isDigit (splitSign e).2
    let fractionDigits := fraction.map (digitRun? Char.isDigit)
    match decimal? whole, fractionDigits, exponentDigits with
    | some _, none, none => false
    | none, _, _ | _, some none, _ | _, _, some none => false
    | some ds, fr, ex =>
        let fds := (fr.bind id).getD []
        let e : Int := (ex.bind id).elim 0 fun eds =>
          if ((exponent.map splitSign).bind Prod.fst) = some '-' then -(inBase 10 eds : Int)
          else inBase 10 eds
        sign = some '-' || !tooLarge (inBase 10 (ds ++ fds)) (e - fds.length)

end Toml
end NameBinding
