import NameBinding.Graph.Counts

/-!
# Binding references

A binding is recorded as an edge from the reference to what it denotes. A
reference is bound once: a second binding of it changes nothing.

* `Graph.bindReference` — record one binding; the answer says whether it is new.
* `Graph.bindAll` — record several, in order, and count the outcome.
-/

namespace NameBinding

/-- What a reference denotes. -/
inductive Binding where
  | definition (node : Nat)
  | imported (node : Nat)
  deriving DecidableEq, Repr

namespace Binding

/-- The node a reference is bound to. -/
def node : Binding → Nat
  | .definition i | .imported i => i

/-- The kind of edge a binding is recorded with. -/
def relation : Binding → Relation
  | .definition _ => .referenceToDefinition
  | .imported _ => .referenceToImport

end Binding

/-- A reference together with what it denotes. -/
structure BoundReference where
  reference : Nat
  binding : Binding
  deriving DecidableEq, Repr

namespace Graph

/-- Record a binding unless the reference is bound already. Both ends of the new
edge have to exist. -/
def bindReference (g : Graph) (reference : Nat) (binding : Binding) : Except Fault (Graph × Bool) :=
  if (g.boundTo? reference).isSome then .ok (g, false)
  else if reference < g.order && binding.node < g.order then
    .ok ({ g with edges := g.edges ++ [⟨reference, binding.node, binding.relation⟩] }, true)
  else .error .missingEndpoint

/-- Record bindings in order. The graph is the one reached, also when a binding
cannot be recorded and the rest is dropped. -/
def bindAll (g : Graph) : List BoundReference → Graph × Except Fault BindingCounts
  | [] => (g, .ok g.bindingCounts)
  | b :: bs =>
      match g.bindReference b.reference b.binding with
      | .ok (g', _) => bindAll g' bs
      | .error fault => (g, .error fault)

end Graph

end NameBinding
