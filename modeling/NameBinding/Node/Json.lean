import NameBinding.Json.Basic
import NameBinding.Node

/-!
# Nodes as JSON

The written form of a node is an object with its kind and its members. Reading is
more generous: a point, a span, a symbol position or a whole node may also be an
array of its members in order, unknown members are passed over, and a symbol
position may be left out. Every accepted form of a node stands for the one value
that `Node.toJson` writes.

* `Point.toJson`, `Span.toJson`, `SymbolIndex.toJson`, `Node.toJson`.
* `Point.ofJson?`, `Span.ofJson?`, `SymbolIndex.ofJson?`, `Node.ofJson?`.
* `Relation.ofJson?` — a word, or an object whose only member is that word.
-/

namespace NameBinding

open Json (member?)

def Point.toJson (p : Point) : Json :=
  .object [("byte", .natural p.byte), ("row", .natural p.row), ("column", .natural p.column)]

/-- The point with the given numbers. -/
def Point.ofList? : List Nat → Option Point
  | [byte, row, column] => some ⟨byte, row, column⟩
  | _ => none

def Point.ofJson? : Json → Option Point :=
  Json.record? Json.natural? ["byte", "row", "column"] ofList?

def Span.toJson (s : Span) : Json :=
  .object [("start", s.start.toJson), ("end", s.stop.toJson)]

/-- The span between the given points. -/
def Span.ofList? : List Point → Option Span
  | [start, stop] => some ⟨start, stop⟩
  | _ => none

def Span.ofJson? : Json → Option Span := Json.record? Point.ofJson? ["start", "end"] ofList?

def SymbolIndex.toJson (i : SymbolIndex) : Json :=
  .object [("namespace_idx", .natural i.space), ("symbol_idx", .natural i.position)]

/-- The symbol position with the given numbers. -/
def SymbolIndex.ofList? : List Nat → Option SymbolIndex
  | [space, position] => some ⟨space, position⟩
  | _ => none

def SymbolIndex.ofJson? : Json → Option SymbolIndex :=
  Json.record? Json.natural? ["namespace_idx", "symbol_idx"] ofList?

/-- A symbol position that may be missing, as a value. -/
def SymbolIndex.optionToJson : Option SymbolIndex → Json
  | none => .null
  | some i => i.toJson

/-- A symbol position, or `null` for a missing one. -/
def SymbolIndex.optionOfJson? : Json → Option (Option SymbolIndex)
  | .null => some none
  | v => (SymbolIndex.ofJson? v).map some

def Node.toJson (n : Node) : Json :=
  match n with
  | .scope span => .object [("kind", .string n.kind), ("range", span.toJson)]
  | .imported span name =>
      .object [("kind", .string n.kind), ("range", span.toJson), ("name", .string name)]
  | .definition span name symbol | .reference span name symbol =>
      .object [("kind", .string n.kind), ("range", span.toJson), ("name", .string name),
        ("symbol_id", SymbolIndex.optionToJson symbol)]

/-- A node from its kind and its members. -/
def Node.ofMembers? (kind : String) (ms : List (String × Json)) : Option Node := do
  match kind with
  | "scope" => return .scope (← Span.ofJson? (← member? ms "range"))
  | "import" =>
      let span ← Span.ofJson? (← member? ms "range")
      let name ← (← member? ms "name").string?
      return .imported span name
  | "def" | "ref" =>
      let span ← Span.ofJson? (← member? ms "range")
      let name ← (← member? ms "name").string?
      let symbol ← SymbolIndex.optionOfJson? ((member? ms "symbol_id").getD .null)
      return if kind == "def" then .definition span name symbol else .reference span name symbol
  | _ => none

/-- A node from its kind and the values of its members, in order. -/
def Node.ofValues? : String → List Json → Option Node
  | "scope", [span] => do return .scope (← Span.ofJson? span)
  | "import", [span, name] => do return .imported (← Span.ofJson? span) (← name.string?)
  | "def", [span, name, symbol] => do
      return .definition (← Span.ofJson? span) (← name.string?) (← SymbolIndex.optionOfJson? symbol)
  | "ref", [span, name, symbol] => do
      return .reference (← Span.ofJson? span) (← name.string?) (← SymbolIndex.optionOfJson? symbol)
  | _, _ => none

def Node.ofJson? : Json → Option Node
  | .object ms => do Node.ofMembers? (← (← member? ms "kind").string?) ms
  | .array (.string kind :: values) => Node.ofValues? kind values
  | _ => none

def Relation.ofJson? : Json → Option Relation
  | .string word => Relation.ofText? word
  | .object [(word, .null)] => Relation.ofText? word
  | _ => none

end NameBinding
