/-!
# TOML values
-/

namespace NameBinding

/-- A TOML value. Floating point numbers and dates keep the form in which they are
written. -/
inductive Toml where
  | string (text : String)
  | integer (value : Int)
  | float (text : String)
  | boolean (value : Bool)
  | datetime (text : String)
  | array (items : List Toml)
  | table (entries : List (String × Toml))
  deriving Repr, Inhabited

namespace Toml

/-- The value of the entry named `key`. -/
def entry? (entries : List (String × Toml)) (key : String) : Option Toml :=
  (entries.find? (·.1 == key)).map Prod.snd

/-- The text a value is, if it is one. -/
def string? : Toml → Option String
  | .string s => some s
  | _ => none

/-- The items a value has, if it is an array. -/
def array? : Toml → Option (List Toml)
  | .array vs => some vs
  | _ => none

/-- Blanks within a line. -/
def isSpace (c : Char) : Bool := c == ' ' || c == '\t'

/-- Control characters other than the tab have to be escaped everywhere. -/
def isControl (c : Char) : Bool := (c.toNat < 0x20 && c != '\t') || c.toNat == 0x7F

/-- The characters of keys that need no quotes. -/
def isBare (c : Char) : Bool := c.isAlphanum || c == '_' || c == '-'

end Toml

end NameBinding
