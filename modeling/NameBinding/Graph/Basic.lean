import NameBinding.Error
import NameBinding.Node

/-!
# Scope graphs

The graph of one source text: its nodes and its edges, each in the order in which
they were added. A node is named by its position, nothing is ever removed, and
node `0` is the root scope.

* `Graph.ofRoot`, `withScope`, `withDefinition`, `withImport`, `withReference`.
* `Graph.incoming`, `Graph.outgoing` — the ends of the edges at a node.
* `Graph.definitionsIn`, `importsIn`, `scopesIn`, `bindingsIn` — what a scope
  holds, `Graph.usesOf`, `Graph.boundTo?` — the two ends of a binding.
* `Graph.nameAt?` — the smallest name covering a byte.
-/

namespace NameBinding

/-- A scope graph. -/
structure Graph where
  nodes : List Node
  edges : List Edge
  deriving DecidableEq, Repr

namespace Graph

/-- The position of the outermost scope. -/
def root : Nat := 0

/-- The graph that holds the outermost scope only. -/
def ofRoot (span : Span) : Graph := ⟨[.scope span], []⟩

/-- The node at a position. -/
def node? (g : Graph) (i : Nat) : Option Node := g.nodes[i]?

def order (g : Graph) : Nat := g.nodes.length

def edgeTotal (g : Graph) : Nat := g.edges.length

/-- The graph with a node more, and an edge from it to `scope`. -/
def addInside (g : Graph) (n : Node) (kind : Relation) (scope : Nat) : Graph :=
  ⟨g.nodes ++ [n], g.edges ++ [⟨g.order, scope, kind⟩]⟩

/-- The graph with a scope directly inside `parent`. -/
def withScope (g : Graph) (span : Span) (parent : Nat) : Graph :=
  g.addInside (.scope span) .scopeToScope parent

/-- The graph with a definition declared in `scope`. -/
def withDefinition (g : Graph) (span : Span) (name : String) (symbol : Option SymbolIndex)
    (scope : Nat) : Graph :=
  g.addInside (.definition span name symbol) .definitionToScope scope

/-- The graph with an import declared in `scope`. -/
def withImport (g : Graph) (span : Span) (name : String) (scope : Nat) : Graph :=
  g.addInside (.imported span name) .importToScope scope

/-- The graph with a reference that is not bound yet. -/
def withReference (g : Graph) (span : Span) (name : String) (symbol : Option SymbolIndex) : Graph :=
  { g with nodes := g.nodes ++ [.reference span name symbol] }

/-! ### Edges at a node -/

/-- The sources of the edges into `i` whose kind satisfies `p`. -/
def incoming (g : Graph) (i : Nat) (p : Relation → Bool) : List Nat :=
  (g.edges.filter fun e => e.target == i && p e.kind).map Edge.source

/-- The targets of the edges out of `i` whose kind satisfies `p`. -/
def outgoing (g : Graph) (i : Nat) (p : Relation → Bool) : List Nat :=
  (g.edges.filter fun e => e.source == i && p e.kind).map Edge.target

/-- The span of a node. -/
def spanOf (g : Graph) (i : Nat) : Span := ((g.node? i).map Node.span).getD .zero

/-- Nodes are listed by span, and those with one span by position. -/
def precedes (g : Graph) (i j : Nat) : Bool :=
  ((compare (g.spanOf i) (g.spanOf j)).then (compare i j)).isLE

/-- The nodes in the order of their spans. -/
def sortBySpan (g : Graph) (is : List Nat) : List Nat := is.mergeSort g.precedes

/-- The definitions declared directly in a scope, by span. -/
def definitionsIn (g : Graph) (scope : Nat) : List Nat :=
  g.sortBySpan (g.incoming scope (· == .definitionToScope))

/-- The imports declared directly in a scope, by span. -/
def importsIn (g : Graph) (scope : Nat) : List Nat :=
  g.sortBySpan (g.incoming scope (· == .importToScope))

/-- The scopes directly inside a scope, by span. -/
def scopesIn (g : Graph) (scope : Nat) : List Nat :=
  g.sortBySpan (g.incoming scope (· == .scopeToScope))

/-- The definitions and imports declared directly in a scope, by position. -/
def bindingsIn (g : Graph) (scope : Nat) : List Nat :=
  (g.incoming scope Relation.declares).mergeSort (· ≤ ·)

/-- The first scope directly inside `parent` that has exactly the given span. -/
def scopeWithSpan? (g : Graph) (parent : Nat) (span : Span) : Option Nat :=
  ((g.incoming parent (· == .scopeToScope)).filter fun i => g.spanOf i == span).min?

/-- The references bound to a node, by span. -/
def usesOf (g : Graph) (i : Nat) : List Nat :=
  g.sortBySpan (g.incoming i Relation.binds)

/-- What a reference is bound to. -/
def boundTo? (g : Graph) (i : Nat) : Option Nat :=
  (g.outgoing i Relation.binds).head?

/-! ### Nodes by kind -/

/-- The positions of the nodes that satisfy `p`, in order. -/
def positions (g : Graph) (p : Node → Bool) : List Nat :=
  (List.range g.order).filter fun i => (g.node? i).any p

/-- All references, by position. -/
def references (g : Graph) : List Nat := g.positions Node.isReference

/-- All definitions, by position. -/
def definitions (g : Graph) : List Nat := g.positions Node.isDefinition

/-- The references that are not bound, by position. -/
def unboundReferences (g : Graph) : List Nat :=
  g.references.filter fun i => (g.boundTo? i).isNone

/-- The element that comes first in an order; of equal ones, the earliest. -/
def leastBy? {α : Type} (le : α → α → Bool) : List α → Option α
  | [] => none
  | a :: as => some (as.foldl (fun m x => if le m x then m else x) a)

/-- Of a size and a position, the size decides, then the position. -/
def smaller (a b : Nat × Nat) : Bool := a.1 < b.1 || (a.1 == b.1 && a.2 ≤ b.2)

/-- The smallest definition, import or reference that covers a byte; of several
smallest ones, the first. -/
def nameAt? (g : Graph) (byte : Nat) : Option Nat :=
  let covering := g.positions fun n => !n.isScope && n.span.coversByte byte
  let sized := covering.map fun i => ((g.spanOf i).stop.byte - (g.spanOf i).start.byte, i)
  (leastBy? smaller sized).map Prod.snd

end Graph

end NameBinding
