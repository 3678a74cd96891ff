import NameBinding.Graph.Scope
import NameBinding.Outline.Context

/-!
# Outlines

The outline of a scope lists its definitions and imports, each with the references
bound to it, and the outlines of the scopes inside it. Everything is in the order
of its span, so an outline does not depend on the order in which the graph was
built.
-/

namespace NameBinding

/-- A definition and the context lines of its references. -/
structure DefinitionOutline where
  name : String
  /-- The label of its symbol class. -/
  kind : String
  context : String
  span : Span
  references : List String
  deriving DecidableEq, Repr

/-- An import and the context lines of its references. -/
structure ImportOutline where
  name : String
  context : String
  span : Span
  references : List String
  deriving DecidableEq, Repr

/-- A scope, what it declares and the scopes inside it. -/
inductive ScopeOutline where
  | mk (span : Span) (definitions : List DefinitionOutline) (imports : List ImportOutline)
      (scopes : List ScopeOutline)
  deriving Repr

namespace Graph

/-- The context lines of the references bound to a node. -/
def usageContexts (g : Graph) (source : String) (i : Nat) : List String :=
  ((g.usesOf i).filterMap g.node?).map (·.span.context source)

/-- The outline of a definition. -/
def definitionOutline? (g : Graph) (source : String) (symbols : SymbolTable) (i : Nat) :
    Option DefinitionOutline :=
  match g.node? i with
  | some (.definition span name symbol) =>
      some ⟨name, symbols.labelFor symbol, span.context source, span, g.usageContexts source i⟩
  | _ => none

/-- The outline of an import. -/
def importOutline? (g : Graph) (source : String) (i : Nat) : Option ImportOutline :=
  match g.node? i with
  | some (.imported span name) =>
      some ⟨name, span.context source, span, g.usageContexts source i⟩
  | _ => none

/-- The outline of a node and of at most `n` levels of scopes below it. -/
def outlineTo (g : Graph) (source : String) (symbols : SymbolTable) : Nat → Nat → ScopeOutline
  | 0, i => .mk (g.spanOf i) [] [] []
  | n + 1, i =>
      .mk (g.spanOf i)
        ((g.definitionsIn i).filterMap (g.definitionOutline? source symbols))
        ((g.importsIn i).filterMap (g.importOutline? source))
        ((g.scopesIn i).map (outlineTo g source symbols n))

/-- The outline of a node. There are not more levels of scopes than nodes. -/
def outline (g : Graph) (source : String) (symbols : SymbolTable) (i : Nat) : ScopeOutline :=
  g.outlineTo source symbols (g.order + 1) i

end Graph

end NameBinding
