import NameBinding.Span
import NameBinding.Symbol

/-!
# Nodes and edges of a scope graph

Four kinds of node: lexical scopes, definitions, imports and references. Nodes
hold no links; every relation between two nodes is an `Edge`, and edges lead from
the inner node to the outer one, or from a reference to what it is bound to.
-/

namespace NameBinding

/-- A node of a scope graph. -/
inductive Node where
  /-- A lexical region. -/
  | scope (span : Span)
  /-- A name bound in a scope, with its symbol class if it has a known one. -/
  | definition (span : Span) (name : String) (symbol : Option SymbolIndex)
  /-- A name bound by an import. -/
  | imported (span : Span) (name : String)
  /-- A use of a name, with the symbol class it expects if that is known. -/
  | reference (span : Span) (name : String) (symbol : Option SymbolIndex)
  deriving DecidableEq, Repr

namespace Node

/-- The source text a node stands for. -/
def span : Node → Span
  | .scope s | .definition s _ _ | .imported s _ | .reference s _ _ => s

/-- The name of a node; scopes have none. -/
def name? : Node → Option String
  | .scope _ => none
  | .definition _ n _ | .imported _ n | .reference _ n _ => some n

/-- The symbol class of a definition or reference. -/
def symbol? : Node → Option SymbolIndex
  | .definition _ _ i | .reference _ _ i => i
  | .scope _ | .imported _ _ => none

/-- The word for the kind of a node. -/
def kind : Node → String
  | .scope _ => "scope"
  | .definition .. => "def"
  | .imported .. => "import"
  | .reference .. => "ref"

def isScope : Node → Bool
  | .scope _ => true
  | _ => false

def isDefinition : Node → Bool
  | .definition .. => true
  | _ => false

def isImport : Node → Bool
  | .imported .. => true
  | _ => false

def isReference : Node → Bool
  | .reference .. => true
  | _ => false

/-- Can a reference be bound to the node? -/
def declaresName (n : Node) : Bool := n.isDefinition || n.isImport

end Node

/-- How the source of an edge relates to its target. -/
inductive Relation where
  /-- A scope lies directly in another scope. -/
  | scopeToScope
  /-- A definition is declared in a scope. -/
  | definitionToScope
  /-- An import is declared in a scope. -/
  | importToScope
  /-- A reference is bound to a definition. -/
  | referenceToDefinition
  /-- A reference is bound to an import. -/
  | referenceToImport
  deriving DecidableEq, Repr

namespace Relation

/-- The word for a kind of edge. -/
def text : Relation → String
  | .scopeToScope => "scope_to_scope"
  | .definitionToScope => "def_to_scope"
  | .importToScope => "import_to_scope"
  | .referenceToDefinition => "ref_to_def"
  | .referenceToImport => "ref_to_import"

/-- The kind a word stands for. -/
def ofText? : String → Option Relation
  | "scope_to_scope" => some .scopeToScope
  | "def_to_scope" => some .definitionToScope
  | "import_to_scope" => some .importToScope
  | "ref_to_def" => some .referenceToDefinition
  | "ref_to_import" => some .referenceToImport
  | _ => none

/-- Edges that bind a reference. -/
def binds : Relation → Bool
  | .referenceToDefinition | .referenceToImport => true
  | _ => false

/-- Edges that attach a definition or import to its scope. -/
def declares : Relation → Bool
  | .definitionToScope | .importToScope => true
  | _ => false

end Relation

/-- A relation between two nodes, given by their positions in the graph. -/
structure Edge where
  source : Nat
  target : Nat
  kind : Relation
  deriving DecidableEq, Repr

end NameBinding
