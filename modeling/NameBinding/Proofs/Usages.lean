import NameBinding.Proofs.Outlines

/-!
# Uses and bindings

A binding is asked for from both of its ends: what a reference is bound to, and which
references are bound to a node.  A reference is bound only while it is free, so no node is
ever bound twice, however bindings are recorded.  Then the two questions are inverse to each
other, and a binding that was recorded stays.

## Main definitions

* `Graph.Before` — nodes in the order of their spans, and of their positions.
* `Graph.InverseUses` — the uses of nodes and the bindings of nodes are inverse.

## Main results

* `SingleBindings.performAll` — no call binds a node that is bound.
* `Extends.boundTo?_eq_some` — bindings stay.
* `inverseUses_performAll` — **after any calls, uses and bindings are inverse to each other,
  and later calls leave the bindings as they are.**
-/

namespace NameBinding
namespace Graph

/-! ### The order of uses -/

/-- The node `i` comes before `j`: its span does, or it has the same span and an earlier
position. -/
def Before (g : Graph) (i j : Nat) : Prop :=
  compare (g.spanOf i) (g.spanOf j) = .lt ∨ g.spanOf i = g.spanOf j ∧ i < j

theorem precedes_iff {g : Graph} {i j : Nat} : g.precedes i j = true ↔ g.Before i j ∨ i = j := by
  unfold precedes Before
  cases hc : compare (g.spanOf i) (g.spanOf j) with
  | lt => simp
  | eq =>
    have hspan : g.spanOf i = g.spanOf j := Std.LawfulEqCmp.eq_of_compare hc
    simp [hspan, Nat.isLE_compare, Nat.le_iff_lt_or_eq]
  | gt =>
    have hne : i ≠ j := by
      rintro rfl
      rw [Std.ReflOrd.compare_self] at hc
      cases hc
    have hspan : g.spanOf i ≠ g.spanOf j := by
      intro heq
      rw [heq, Std.ReflOrd.compare_self] at hc
      cases hc
    simp [hne, hspan]

/-- Different nodes are sorted without ties. -/
theorem pairwise_before_sortBySpan (g : Graph) {is : List Nat} (h : is.Nodup) :
    (g.sortBySpan is).Pairwise g.Before := by
  have hnodup : (g.sortBySpan is).Nodup := (List.mergeSort_perm is g.precedes).nodup_iff.mpr h
  have hsorted := List.pairwise_mergeSort g.precedes_trans g.precedes_total is
  refine (hsorted.and hnodup).imp fun {i j} hij => ?_
  exact (precedes_iff.mp hij.1).resolve_right hij.2

/-! ### Calls -/

theorem perform_bind (g : Graph) (reference : Nat) (binding : Binding) :
    g.perform (.bind reference binding) = (g.bindAll [⟨reference, binding⟩]).1 := by
  rw [perform, bindAll]
  cases g.bindReference reference binding with
  | error fault => rfl
  | ok r => rfl

/-- Resolving changes nothing, or records what all references denote. -/
theorem perform_resolve_cases (g : Graph) : g.perform .resolve = g ∨
    ∃ bs, g.allBindings = .ok bs ∧ g.perform .resolve = (g.bindAll bs).1 := by
  rw [perform]
  cases h : g.resolve with
  | error e => exact Or.inl rfl
  | ok r =>
    obtain ⟨bs, hall, hbs⟩ := bindAll_of_resolve h
    exact Or.inr ⟨bs, hall, by rw [hbs]⟩

namespace SingleBindings

variable {g : Graph}

/-- **No call binds a node that is bound.** -/
theorem perform (h : g.SingleBindings) (call : BindingCall) : (g.perform call).SingleBindings := by
  cases call with
  | bind reference binding =>
    rw [perform_bind]
    exact h.bindAll _
  | bindAll bindings => exact h.bindAll bindings
  | resolve =>
    rcases g.perform_resolve_cases with hsame | ⟨bs, -, hbs⟩
    · rw [hsame]
      exact h
    · rw [hbs]
      exact h.bindAll bs

theorem performAll (h : g.SingleBindings) (calls : List BindingCall) :
    (g.performAll calls).SingleBindings := by
  induction calls generalizing g with
  | nil => exact h
  | cons call calls ih => exact ih (h.perform call)

end SingleBindings

/-- **Bindings stay**: the edges that are added come after those that are there. -/
theorem Extends.boundTo?_eq_some {g g' : Graph} (h : g.Extends g') {i w : Nat}
    (hw : g.boundTo? i = some w) : g'.boundTo? i = some w := by
  obtain ⟨-, es, hes, -⟩ := h
  rw [boundTo?, outgoing] at hw ⊢
  rw [hes, List.filter_append, List.map_append, List.head?_append, hw]
  rfl

/-! ### Inverse questions -/

/-- The uses of nodes and the bindings of nodes are inverse: no node has two bindings, the
uses of a node are those that are bound to it, and they are listed once each, in order. -/
structure InverseUses (g : Graph) : Prop where
  single : ∀ i, (g.outgoing i Relation.binds).length ≤ 1
  mem_usesOf : ∀ i w, i ∈ g.usesOf w ↔ g.boundTo? i = some w
  nodup : ∀ w, (g.usesOf w).Nodup
  sorted : ∀ w, (g.usesOf w).Pairwise g.Before

theorem SingleBindings.inverseUses {g : Graph} (h : g.SingleBindings) : g.InverseUses where
  single := h
  mem_usesOf _ _ := List.mem_mergeSort.trans h.mem_incoming_iff
  nodup w := (List.mergeSort_perm _ _).nodup_iff.mpr (h.nodup_incoming w)
  sorted w := g.pairwise_before_sortBySpan (h.nodup_incoming w)

/-- **Uses and bindings are inverse to each other.**  Take any graph built from events, and any
calls that record bindings, between whichever nodes.  No node has two bindings then.  The uses
of a node are exactly the nodes bound to it, each listed once, by span and by position.  And
whatever is bound stays bound to the same node, whichever calls follow. -/
theorem inverseUses_performAll {top : Span} {symbols : SymbolTable} {events : List Event}
    {g : Graph} (hg : Graph.ofEvents top symbols events = .ok g) (calls : List BindingCall) :
    (g.performAll calls).InverseUses ∧
      ∀ later i w, (g.performAll calls).boundTo? i = some w →
        ((g.performAll calls).performAll later).boundTo? i = some w := by
  have hsingle := (unbound_ofEvents hg).singleBindings.performAll calls
  refine ⟨hsingle.inverseUses, ?_⟩
  intro later i w hw
  exact (extends_performAll later _).boundTo?_eq_some hw

/-- Of two uses at one span the second is bound first, by hand, and both are then asked to be
bound to something else. -/
theorem inverseUses_performAll_tied :
    let span (a b : Nat) : Span := ⟨⟨a, 0, a⟩, ⟨b, 0, b⟩⟩
    let events : List Event :=
      [.scopeStart (span 0 9), .definition (span 1 2) "f" .hoisted none,
        .imported (span 2 3) "g", .reference (span 4 5) "f" none, .reference (span 4 5) "f" none,
        .scopeEnd .zero]
    let g : Graph :=
      ⟨[.scope (span 0 10), .scope (span 0 9), .definition (span 1 2) "f" none,
          .imported (span 2 3) "g", .reference (span 4 5) "f" none,
          .reference (span 4 5) "f" none],
        [⟨1, 0, .scopeToScope⟩, ⟨2, 0, .definitionToScope⟩, ⟨3, 1, .importToScope⟩]⟩
    let calls : List BindingCall := [.bind 5 (.definition 2), .bind 1 (.imported 4), .resolve]
    let later : List BindingCall := [.bindAll [⟨4, .imported 3⟩, ⟨5, .definition 0⟩], .resolve]
    Graph.ofEvents (span 0 10) ⟨[]⟩ events = .ok g ∧ (g.performAll calls).InverseUses ∧
      4 ∈ (g.performAll calls).usesOf 2 ∧ 5 ∈ (g.performAll calls).usesOf 2 ∧
      1 ∈ (g.performAll calls).usesOf 4 ∧
      ((g.performAll calls).performAll later).boundTo? 4 = some 2 ∧
      ((g.performAll calls).performAll later).boundTo? 5 = some 2 := by
  intro span events g calls later
  have hg : Graph.ofEvents (span 0 10) ⟨[]⟩ events = .ok g := by decide +kernel
  obtain ⟨hinverse, hkept⟩ := inverseUses_performAll hg calls
  have hfirst : (g.performAll calls).boundTo? 4 = some 2 := by decide +kernel
  have hsecond : (g.performAll calls).boundTo? 5 = some 2 := by decide +kernel
  have hscope : (g.performAll calls).boundTo? 1 = some 4 := by decide +kernel
  exact ⟨hg, hinverse, (hinverse.mem_usesOf 4 2).mpr hfirst, (hinverse.mem_usesOf 5 2).mpr hsecond,
    (hinverse.mem_usesOf 1 4).mpr hscope, hkept later 4 2 hfirst, hkept later 5 2 hsecond⟩

end Graph
end NameBinding
