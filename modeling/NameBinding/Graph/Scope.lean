import NameBinding.Graph.Basic

/-!
# The tree of scopes

How a scope lies in its parents: one step outward, the chain to the root, and the
search from the root for the innermost scope around a span.

* `Graph.parent` — the scope around a scope; a graph that is no tree is refused.
* `Graph.smallestScope` — from the root inward, always into the smallest child
  that contains the span.
* `Graph.homeScope`, `Graph.ancestry` — where a node lives, innermost first.
-/

namespace NameBinding
namespace Graph

/-- The scope directly around a scope: none for the root, and exactly one for
every other scope of an undamaged graph. -/
def parent (g : Graph) (scope : Nat) : Except Damage (Option Nat) :=
  match g.node? scope with
  | none => .error (.danglingScope scope)
  | some (.scope _) =>
      match g.outgoing scope (· == .scopeToScope) with
      | [] => if scope == root then .ok none else .error (.detachedScope scope)
      | [outer] =>
          if (g.node? outer).any Node.isScope then .ok (some outer)
          else .error (.parentNotScope scope outer)
      | outers => .error (.severalParents scope outers.length)
  | some other => .error (.notScope scope other.kind)

/-- The scope directly around a scope, if there is one. -/
def outerScope? (g : Graph) (scope : Nat) : Option Nat :=
  match g.parent scope with
  | .ok outer => outer
  | .error _ => none

/-! ### Inward -/

/-- The children of a scope that contain a span, each with its size. -/
def childrenAround (g : Graph) (scope : Nat) (span : Span) : Except Fault (List (Nat × Nat)) :=
  ((g.incoming scope (· == .scopeToScope)).filter fun i => (g.spanOf i).contains span).mapM
    fun i => do return (← (g.spanOf i).size, i)

/-- The smallest child of a scope that contains a span; of several, the first. -/
def closestChild? (g : Graph) (scope : Nat) (span : Span) : Except Fault (Option Nat) := do
  return (leastBy? smaller (← g.childrenAround scope span)).map Prod.snd

/-- At most `n` steps inward from `scope`, towards `span`. -/
def descend (g : Graph) (span : Span) : Nat → Nat → Except Fault Nat
  | 0, scope => .ok scope
  | n + 1, scope => do
      match ← g.closestChild? scope span with
      | some child => descend g span n child
      | none => return scope

/-- The innermost scope around a span. A tree is not deeper than it has nodes, so
that many steps are enough. -/
def smallestScope (g : Graph) (span : Span) : Except Fault Nat :=
  g.descend span g.order root

/-! ### Outward -/

/-- The scope a node lives in: a scope in itself, a definition or import in the scope
that declares it, a reference in the innermost scope around it. -/
def homeScope (g : Graph) (i : Nat) : Except Fault (Option Nat) :=
  match g.node? i with
  | none => .ok none
  | some (.scope _) => .ok (some i)
  | some (.definition ..) => .ok (g.outgoing i (· == .definitionToScope)).head?
  | some (.imported ..) => .ok (g.outgoing i (· == .importToScope)).head?
  | some (.reference span ..) => do return some (← g.smallestScope span)

/-- The scopes from `scope` outward, until one repeats; at most `n` of them. -/
def chainFrom (g : Graph) : Nat → List Nat → Option Nat → List Nat
  | 0, _, _ | _, _, none => []
  | n + 1, seen, some scope =>
      if scope ∈ seen then []
      else scope :: chainFrom g n (scope :: seen) (g.outerScope? scope)

/-- The scopes around a node, innermost first. -/
def ancestry (g : Graph) (i : Nat) : Except Fault (List Nat) := do
  return g.chainFrom (g.order + 1) [] (← g.homeScope i)

end Graph
end NameBinding
