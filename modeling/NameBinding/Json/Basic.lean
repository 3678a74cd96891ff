import NameBinding.Fault

/-!
# JSON values

* `Json` — a value; the members of an object keep their order.
* `Json.pretty` — the indented text of a value: two blanks a level, one item or
  member a line, and nothing between the brackets of an empty one.
* `Json.natural?`, `Json.string?`, `Json.member?` — looking into a value.
* `Json.record?` — reading a record, which may be an object or an array.
-/

namespace NameBinding

/-- A JSON value. A number is a whole number of units of some decimal place. -/
inductive Json where
  | null
  | bool (value : Bool)
  /-- The number `mantissa / 10 ^ places`. -/
  | number (mantissa : Int) (places : Nat)
  | string (text : String)
  | array (items : List Json)
  | object (members : List (String × Json))
  deriving Repr, Inhabited

namespace Json

/-- A natural number as a value. -/
def natural (n : Nat) : Json := .number n 0

/-- The natural number a value is, if it is one below `2 ^ 64`. -/
def natural? : Json → Option Nat
  | .number (.ofNat n) 0 => if n < Size.bound then some n else none
  | _ => none

/-- The text a value is, if it is one. -/
def string? : Json → Option String
  | .string s => some s
  | _ => none

/-- The value of the member named `key`. -/
def member? (members : List (String × Json)) (key : String) : Option Json :=
  (members.find? (·.1 == key)).map Prod.snd

/-- The values of a record with the given keys: the members of an object that have these
keys, or the items of an array of that length. -/
def values? (keys : List String) : Json → Option (List Json)
  | .object members => keys.mapM (member? members)
  | .array items => if items.length = keys.length then some items else none
  | _ => none

/-- A record whose values are all read in one way. -/
def record? {α β : Type} (read : Json → Option α) (keys : List String) (make : List α → Option β)
    (v : Json) : Option β := do
  make (← (← v.values? keys).mapM read)

/-! ### Writing -/

/-- The digit for a number below sixteen. -/
def hexDigit (n : Nat) : Char := "0123456789abcdef".toList.getD n '0'

/-- How a character is written inside a string. -/
def escape (c : Char) : List Char :=
  match c with
  | '"' => ['\\', '"']
  | '\\' => ['\\', '\\']
  | '\x08' => ['\\', 'b']
  | '\x0c' => ['\\', 'f']
  | '\n' => ['\\', 'n']
  | '\r' => ['\\', 'r']
  | '\t' => ['\\', 't']
  | c =>
      if c.toNat < 0x20 then
        ['\\', 'u', '0', '0', hexDigit (c.toNat / 16), hexDigit (c.toNat % 16)]
      else [c]

/-- The written form of a string. -/
def quote (s : String) : String :=
  String.ofList ('"' :: s.toList.flatMap escape ++ ['"'])

/-- The written form of a number. -/
def numberText (mantissa : Int) (places : Nat) : String :=
  let sign := if mantissa < 0 then "-" else ""
  if places = 0 then s!"{sign}{mantissa.natAbs}"
  else
    let digits := (Nat.repr (mantissa.natAbs % Nat.pow 10 places)).toList
    let fraction := String.ofList (List.replicate (places - digits.length) '0' ++ digits)
    s!"{sign}{mantissa.natAbs / Nat.pow 10 places}.{fraction}"

/-- A new line at a depth of nesting. -/
def newline (depth : Nat) : String := "\n" ++ String.ofList (List.replicate (2 * depth) ' ')

/-- Written items between brackets, one a line. -/
def block (opening closing : String) (depth : Nat) (items : List String) : String :=
  if items.isEmpty then opening ++ closing
  else
    opening ++ ",".intercalate (items.map (newline (depth + 1) ++ ·)) ++ newline depth ++ closing

mutual

/-- The text of a value at a depth of nesting. -/
def prettyAt (depth : Nat) : Json → String
  | .null => "null"
  | .bool b => if b then "true" else "false"
  | .number m p => numberText m p
  | .string s => quote s
  | .array items => block "[" "]" depth (prettyItems (depth + 1) items)
  | .object members => block "\x7b" "\x7d" depth (prettyMembers (depth + 1) members)

/-- The texts of the items of an array. -/
def prettyItems (depth : Nat) : List Json → List String
  | [] => []
  | v :: vs => prettyAt depth v :: prettyItems depth vs

/-- The texts of the members of an object. -/
def prettyMembers (depth : Nat) : List (String × Json) → List String
  | [] => []
  | (k, v) :: ms => (quote k ++ ": " ++ prettyAt depth v) :: prettyMembers depth ms

end

/-- The indented text of a value. -/
def pretty (v : Json) : String := prettyAt 0 v

end Json

end NameBinding
