/-!
# Symbol tables

A language sorts what a name can stand for into name spaces, each an ordered
list of symbol classes such as `function` or `struct`. A `SymbolIndex` is a
position in that table: the name space, then the class within it.

* `SymbolTable.indexOf?` — the first position of a class, in table order.
* `SymbolTable.nameOf?` — the class at a position.
* `SymbolTable.labelFor` — the class of an optional position, for display.
* `SymbolTable.ordinal?` — the position of a class when the name spaces are
  written one after the other.
-/

namespace NameBinding

/-- Position of a symbol class in a table. -/
structure SymbolIndex where
  /-- Which name space. -/
  space : Nat
  /-- Which class of that name space. -/
  position : Nat
  deriving DecidableEq, Repr, Inhabited

namespace SymbolIndex

/-- Are the two classes of one name space? -/
def sameSpace (i j : SymbolIndex) : Bool := i.space == j.space

/-- Positions are ordered by name space, then by class. -/
protected def compare (i j : SymbolIndex) : Ordering :=
  (Ord.compare i.space j.space).then (Ord.compare i.position j.position)

instance : Ord SymbolIndex := ⟨SymbolIndex.compare⟩

/-- The written form of a position. -/
def text (i : SymbolIndex) : String := s!"{i.space}:{i.position}"

end SymbolIndex

/-- The name spaces of one language, in order. -/
structure SymbolTable where
  spaces : List (List String)
  deriving DecidableEq, Repr, Inhabited

namespace SymbolTable

/-- The first position of `symbol` in `spaces`, whose first one has number `k`. -/
def findFrom (symbol : String) (k : Nat) : List (List String) → Option SymbolIndex
  | [] => none
  | names :: rest =>
      match names.idxOf? symbol with
      | some j => some ⟨k, j⟩
      | none => findFrom symbol (k + 1) rest

/-- The first position at which `symbol` stands. -/
def indexOf? (t : SymbolTable) (symbol : String) : Option SymbolIndex := findFrom symbol 0 t.spaces

/-- The class at a position. -/
def nameOf? (t : SymbolTable) (id : SymbolIndex) : Option String :=
  t.spaces[id.space]?.bind (·[id.position]?)

/-- The class at an optional position, for display: `none` without a position,
`unclassified` for one outside the table. -/
def labelFor (t : SymbolTable) : Option SymbolIndex → String
  | none => "none"
  | some id => (t.nameOf? id).getD "unclassified"

/-- The place of a position in the concatenated name spaces. -/
def ordinal? (t : SymbolTable) (id : SymbolIndex) : Option Nat :=
  match t.spaces[id.space]? with
  | none => none
  | some names =>
      if id.position < names.length then
        some ((t.spaces.take id.space).flatten.length + id.position)
      else none

/-- The number of name spaces. -/
def size (t : SymbolTable) : Nat := t.spaces.length

/-- The written form of a table: each name space in brackets. -/
def text (t : SymbolTable) : String :=
  " ".intercalate (t.spaces.map fun names => "[" ++ ", ".intercalate names ++ "]")

end SymbolTable

end NameBinding
