import NameBinding.Event

/-!
# Captures

A query over a source text captures pieces of it under dotted names. The first two
parts of a name say what role the piece plays, and a third part, which may itself
hold dots, names a symbol class.

* `Role.ofName?` — the role and the symbol class of a capture name.
* `importedName` — the name an import binds.
-/

namespace NameBinding

/-- The role a captured piece of text plays. -/
inductive Role where
  | scope
  | definition (scoping : Scoping)
  | imported
  | reference
  /-- Never a use, even if it is also captured as a reference. -/
  | ignored
  deriving DecidableEq, Repr

/-- A captured piece of source text. -/
structure Capture where
  role : Role
  symbol : Option String
  span : Span
  text : String
  deriving DecidableEq, Repr

/-- The order in which captures of one span are taken. -/
def Role.rank : Role → Nat
  | .scope => 0
  | .definition _ => 1
  | .imported => 2
  | .reference => 3
  | .ignored => 4

/-- The text before the first dot, and the text after it if there is one. -/
def cutAtDot : List Char → List Char × Option (List Char)
  | [] => ([], none)
  | c :: cs => if c = '.' then ([], some cs) else ((cutAtDot cs).map (c :: ·) id)

/-- The role that the first two parts of a name stand for. -/
def Role.ofParts? : String → String → Option Role
  | "local", "scope" => some .scope
  | "local", "import" => some .imported
  | "local", "ignore" => some .ignored
  | "local", "definition" => some (.definition .localScope)
  | "hoist", "definition" => some (.definition .hoisted)
  | "global", "definition" => some (.definition .globalScope)
  | "local", "reference" => some .reference
  | _, _ => none

/-- Do captures of this role keep the symbol class of their name? -/
def Role.classified : Role → Bool
  | .definition _ | .reference => true
  | .scope | .imported | .ignored => false

/-- The role and the symbol class a capture name stands for. -/
def Role.ofName? (name : String) : Option (Role × Option String) :=
  match cutAtDot name.toList with
  | (_, none) => none
  | (head, some rest) =>
      let (tail, symbol) := cutAtDot rest
      (Role.ofParts? (String.ofList head) (String.ofList tail)).map fun role =>
        (role, if role.classified then symbol.map String.ofList else none)

/-- Is the character one of the quotes a module name may stand in? -/
def isQuote (c : Char) : Bool := c == '\x22' || c == '\x27' || c == '\x60'

/-- The name an import binds: without quotes, and only the last part of a path. -/
def importedName (text : String) : String :=
  let unquoted := ((text.toList.dropWhile isQuote).reverse.dropWhile isQuote).reverse
  String.ofList (unquoted.reverse.takeWhile (· != '/')).reverse

end NameBinding
