import NameBinding.Graph.Basic

/-!
# Statistics of scope graphs

Two summaries of a graph, and how those of several graphs add up.

* `GraphCounts` — how many nodes of each kind and how many edges there are.
* `BindingCounts` — what became of the references.
* `GraphCounts.absorb`, `BindingCounts.absorb` — add a summary to a total, member
  by member; the members before an overflow stay added.
-/

namespace NameBinding

/-- The size of a graph. -/
structure GraphCounts where
  scopes : Nat := 0
  definitions : Nat := 0
  imports : Nat := 0
  references : Nat := 0
  /-- The edges that bind a reference. -/
  resolved : Nat := 0
  edges : Nat := 0
  deriving DecidableEq, Repr, Inhabited

/-- What became of the references of a graph. -/
structure BindingCounts where
  references : Nat := 0
  toDefinitions : Nat := 0
  toImports : Nat := 0
  unresolved : Nat := 0
  deriving DecidableEq, Repr, Inhabited

namespace GraphCounts

/-- The references without a binding. -/
def unresolved (s : GraphCounts) : Except Fault Nat := Size.sub s.references s.resolved

/-- Add a summary to the running total. -/
def absorb (s : GraphCounts) : ExceptT Fault (StateM GraphCounts) Unit := do
  let scopes ← Size.add (← get).scopes s.scopes
  modify ({ · with scopes })
  let definitions ← Size.add (← get).definitions s.definitions
  modify ({ · with definitions })
  let imports ← Size.add (← get).imports s.imports
  modify ({ · with imports })
  let references ← Size.add (← get).references s.references
  modify ({ · with references })
  let resolved ← Size.add (← get).resolved s.resolved
  modify ({ · with resolved })
  let edges ← Size.add (← get).edges s.edges
  modify ({ · with edges })

/-- The written form of a summary. -/
def text (s : GraphCounts) : Except Fault String := do
  let unresolved ← s.unresolved
  return "Scope Graph Statistics:\n" ++
    s!"  Scopes: {s.scopes}\n" ++
    s!"  Definitions: {s.definitions}  Imports: {s.imports}\n" ++
    s!"  References: {s.references} (resolved: {s.resolved}, unresolved: {unresolved})\n" ++
    s!"  Edges: {s.edges}\n"

end GraphCounts

namespace BindingCounts

/-- The references with a binding. -/
def resolved (s : BindingCounts) : Except Fault Nat := Size.add s.toDefinitions s.toImports

/-- Add a summary to the running total. -/
def absorb (s : BindingCounts) : ExceptT Fault (StateM BindingCounts) Unit := do
  let references ← Size.add (← get).references s.references
  modify ({ · with references })
  let toDefinitions ← Size.add (← get).toDefinitions s.toDefinitions
  modify ({ · with toDefinitions })
  let toImports ← Size.add (← get).toImports s.toImports
  modify ({ · with toImports })
  let unresolved ← Size.add (← get).unresolved s.unresolved
  modify ({ · with unresolved })

/-- The written form of a summary. -/
def text (s : BindingCounts) : String :=
  "Resolution Stats:\n" ++
    s!"  Total References: {s.references}\n" ++
    s!"  ✅ To definitions: {s.toDefinitions}\n" ++
    s!"  📦 To imports: {s.toImports}\n" ++
    s!"  🌍 Unresolved: {s.unresolved}\n"

end BindingCounts

namespace Graph

/-- The size of a graph. -/
def counts (g : Graph) : GraphCounts where
  scopes := g.nodes.countP Node.isScope
  definitions := g.nodes.countP Node.isDefinition
  imports := g.nodes.countP Node.isImport
  references := g.nodes.countP Node.isReference
  resolved := g.edges.countP (·.kind.binds)
  edges := g.edgeTotal

/-- What a reference is bound to, if it is bound at all. -/
def boundNode? (g : Graph) (i : Nat) : Option Node := (g.boundTo? i).bind g.node?

/-- What became of the references of a graph. A reference bound to a node that is
neither definition nor import counts as unresolved. -/
def bindingCounts (g : Graph) : BindingCounts where
  references := g.references.length
  toDefinitions := g.references.countP fun i => (g.boundNode? i).any Node.isDefinition
  toImports := g.references.countP fun i => (g.boundNode? i).any Node.isImport
  unresolved := g.references.countP fun i => !(g.boundNode? i).any Node.declaresName

end Graph

end NameBinding
