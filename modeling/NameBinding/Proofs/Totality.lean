import NameBinding.Proofs.Lookup
import NameBinding.Proofs.Recording

/-!
# Nothing fails on a structured graph

The search for a scope, the step to a parent and the look-up of a reference all check
the graph they walk through, and the two walks count their steps besides.  On a
structured graph with ordered scopes none of these checks ever answers: parents come
before their children, so a walk meets no scope twice and is over before its count is.

## Main definitions

* `Graph.meaning` — what a reference denotes, as far as it can be looked up.
* `Graph.BindsName`, `Graph.BindsNames` — only references are bound, and only to declarations.
* `Graph.Undamaged` — only nodes that are no references cannot be looked up.

## Main results

* `Structured.descend_congr`, `Structured.lookup_congr` — **the bounds on the two walks
  do not matter**, as long as they cover the nodes.
* `Structured.allBindings_eq_ok`, `Structured.resolve_eq_ok` — every reference can be
  looked up, and the outcome can be recorded.
* `Structured.bindings_of_resolve` — resolving binds references to declarations, once each.
* `undamaged_performAll` — **of all structural errors only one can occur**, on a node that
  is no reference.
-/

namespace NameBinding
namespace Graph

/-- What a reference denotes, as far as it can be looked up. -/
def meaning (g : Graph) (i : Nat) : Option Binding := (g.bindingFor i).toOption.join

namespace Structured

variable {top : Span} {g : Graph}

/-! ### The bounds on the walks -/

/-- Children come after their parents, so two bounds that cover the nodes after `scope`
let the descent end at the same place. -/
theorem descend_congr (h : g.Structured top) (ho : g.ScopesOrdered) (span : Span) :
    ∀ (n m scope : Nat), scope < g.order → g.order ≤ scope + n → g.order ≤ scope + m →
      g.descend span n scope = g.descend span m scope := by
  intro n
  induction n with
  | zero => intro m scope hlt hn; omega
  | succ n ih =>
    intro m scope hlt hn hm
    obtain ⟨m, rfl⟩ : ∃ k, m = k + 1 := ⟨m - 1, by omega⟩
    rw [descend, descend]
    rcases h.closestChild?_cases ho scope span with ⟨hnone, -⟩ | ⟨child, hsome, hclosest⟩
    · rw [hnone]
      rfl
    · have hlt' := h.isChild_lt hclosest.isChild
      have hrest : g.descend span n child = g.descend span m child :=
        ih m child hlt'.2 (by omega) (by omega)
      rw [hsome]
      exact hrest

/-- Parents come before their children, so two bounds greater than the position of
`scope` let the walk outward have the same result. -/
theorem lookup_congr (h : g.Structured top) (span : Span) (name : String)
    (symbol : Option SymbolIndex) {scope : Nat} {chain : List Nat}
    (hout : g.Outward scope chain) : ∀ n m, scope < n → scope < m →
      g.lookup span name symbol n scope = g.lookup span name symbol m scope := by
  induction hout with
  | root =>
    intro n m hn hm
    obtain ⟨n, rfl⟩ : ∃ k, n = k + 1 := ⟨n - 1, by omega⟩
    obtain ⟨m, rfl⟩ : ∃ k, m = k + 1 := ⟨m - 1, by omega⟩
    simp only [lookup, h.parent_root, bind, Except.bind]
  | @step scope outer rest hparent hrest ih =>
    intro n m hn hm
    obtain ⟨n, rfl⟩ : ∃ k, n = k + 1 := ⟨n - 1, by omega⟩
    obtain ⟨m, rfl⟩ : ∃ k, m = k + 1 := ⟨m - 1, by omega⟩
    have hlt := (h.of_parent hparent).1
    have htail := ih n m (by omega) (by omega)
    simp only [lookup, hparent, bind, Except.bind, htail]

/-- Every scope has a parent or is the root. -/
theorem parent_eq_ok (h : g.Structured top) {i : Nat} {s : Span}
    (hs : g.node? i = some (.scope s)) : ∃ outer, g.parent i = .ok outer := by
  by_cases hroot : i = root
  · exact ⟨none, by rw [hroot, h.parent_root]⟩
  · obtain ⟨p, hp⟩ := h.exists_parent hroot hs
    exact ⟨some p, hp⟩

/-! ### References -/

/-- A reference can be looked up, and what it denotes declares a name. -/
theorem bindingFor_eq_meaning (h : g.Structured top) (ho : g.ScopesOrdered) {i : Nat}
    (hi : i ∈ g.references) :
    g.bindingFor i = .ok (g.meaning i) ∧ ∀ b, g.meaning i = some b →
      ∃ n, g.node? b.node = some n ∧ n.declaresName = true := by
  obtain ⟨n, hn, href⟩ := mem_references.mp hi
  cases n with
  | reference span name symbol =>
    obtain ⟨_, _, -, -, -, hcases⟩ := h.bindingFor_cases ho hn
    rcases hcases with ⟨hnone, -⟩ | ⟨_, _, _, w, -, -, hw, hsome⟩
    · have hm : g.meaning i = none := by rw [meaning, hnone]; rfl
      rw [hm]
      exact ⟨hnone, by simp⟩
    · have hm : g.meaning i = some (g.bindingTo w) := by rw [meaning, hsome]; rfl
      rw [hm]
      refine ⟨hsome, ?_⟩
      rintro b ⟨⟩
      rw [node_bindingTo]
      exact hw.candidate.exists_node
  | scope | definition | imported => cases href

/-- A reference can be looked up, and what it denotes is a node of the graph. -/
theorem bindingFor_eq_ok (h : g.Structured top) (ho : g.ScopesOrdered) {i : Nat}
    (hi : i ∈ g.references) :
    g.bindingFor i = .ok (g.meaning i) ∧ ∀ b, g.meaning i = some b → b.node < g.order := by
  obtain ⟨hok, hmeans⟩ := h.bindingFor_eq_meaning ho hi
  refine ⟨hok, fun b hb => ?_⟩
  obtain ⟨n, hn, -⟩ := hmeans b hb
  exact node?_lt hn

/-- **Every reference can be looked up**, and no binding leads out of the graph. -/
theorem allBindings_eq_ok (h : g.Structured top) (ho : g.ScopesOrdered) :
    g.allBindings = .ok (meanings g.meaning g.references) ∧
      ∀ b ∈ meanings g.meaning g.references,
        b.reference < g.order ∧ b.binding.node < g.order := by
  refine ⟨resolveEach_eq _ fun i hi => (h.bindingFor_eq_ok ho hi).1, ?_⟩
  intro b hb
  obtain ⟨hi, hm⟩ := mem_meanings.mp hb
  obtain ⟨n, hn, -⟩ := mem_references.mp hi
  exact ⟨node?_lt hn, (h.bindingFor_eq_ok ho hi).2 _ hm⟩

end Structured

/-! ### Recording -/

theorem isSome_boundTo?_iff {g : Graph} {i : Nat} :
    (g.boundTo? i).isSome = true ↔ ∃ e ∈ g.edges, e.source = i ∧ e.kind.binds = true := by
  rw [boundTo?, List.isSome_head?, outgoing, ne_eq, List.map_eq_nil_iff, List.filter_eq_nil_iff]
  simp

/-- A binding inside the graph can be recorded, and then the reference is bound. -/
theorem bindReference_eq_ok {g : Graph} {reference : Nat} {binding : Binding}
    (hr : reference < g.order) (hb : binding.node < g.order) :
    ∃ g' new, g.bindReference reference binding = .ok (g', new) ∧ g'.order = g.order ∧
      (g'.boundTo? reference).isSome = true := by
  unfold bindReference
  split
  · next hbound => exact ⟨g, false, rfl, rfl, hbound⟩
  · rw [if_pos (by simp [hr, hb])]
    refine ⟨_, true, rfl, rfl, isSome_boundTo?_iff.mpr ?_⟩
    refine ⟨⟨reference, binding.node, binding.relation⟩, ?_, rfl, Binding.binds_relation binding⟩
    exact List.mem_append_right _ (List.mem_singleton.mpr rfl)

theorem Extends.isSome_boundTo? {g g' : Graph} (h : g.Extends g') {i : Nat}
    (hi : (g.boundTo? i).isSome = true) : (g'.boundTo? i).isSome = true := by
  obtain ⟨-, es, hes, -⟩ := h
  obtain ⟨e, he, hsource, hbinds⟩ := isSome_boundTo?_iff.mp hi
  refine isSome_boundTo?_iff.mpr ⟨e, ?_, hsource, hbinds⟩
  rw [hes]
  exact List.mem_append_left _ he

/-- **Bindings inside the graph can all be recorded**, whatever is bound already, and
then all their references are bound. -/
theorem bindAll_eq_ok : ∀ (bs : List BoundReference) (g : Graph),
    (∀ b ∈ bs, b.reference < g.order ∧ b.binding.node < g.order) →
    (g.bindAll bs).2 = .ok (g.bindAll bs).1.bindingCounts ∧
      ∀ b ∈ bs, ((g.bindAll bs).1.boundTo? b.reference).isSome = true := by
  intro bs
  induction bs with
  | nil => intro g _; exact ⟨rfl, by simp⟩
  | cons b bs ih =>
    intro g hlt
    obtain ⟨hr, hb⟩ := hlt b (List.mem_cons_self ..)
    obtain ⟨g', new, hbind, horder, hbound⟩ := bindReference_eq_ok hr hb
    have hrest := ih g' fun b' hb' => by
      rw [horder]
      exact hlt b' (List.mem_cons_of_mem _ hb')
    rw [bindAll, hbind]
    refine ⟨hrest.1, fun b' hb' => ?_⟩
    rcases List.mem_cons.mp hb' with rfl | hb'
    · -- later bindings leave it bound
      exact (extends_bindAll bs g').isSome_boundTo? hbound
    · exact hrest.2 b' hb'

/-- **Resolving succeeds**, and then every reference that denotes something is bound. -/
theorem Structured.resolve_eq_ok {top : Span} {g : Graph} (h : g.Structured top)
    (ho : g.ScopesOrdered) :
    ∃ g', g' = (g.bindAll (meanings g.meaning g.references)).1 ∧
      g.resolve = .ok (g', g'.bindingCounts) ∧
      ∀ b ∈ meanings g.meaning g.references, (g'.boundTo? b.reference).isSome = true := by
  obtain ⟨hall, hlt⟩ := h.allBindings_eq_ok ho
  obtain ⟨hcounts, hbound⟩ := bindAll_eq_ok _ g hlt
  refine ⟨_, rfl, ?_, hbound⟩
  rw [resolve, hall]
  simp only [bind, Except.bind, hcounts, Error.ofFault_ok, pure, Except.pure]

/-- The binding is one of a reference to a definition or import. -/
def BindsName (g : Graph) (b : BoundReference) : Prop :=
  (∃ n, g.node? b.reference = some n ∧ n.isReference = true) ∧
    ∃ n, g.node? b.binding.node = some n ∧ n.declaresName = true

/-- Every binding leads from a reference to a definition or import. -/
def BindsNames (g : Graph) : Prop := ∀ e ∈ g.edges, e.kind.binds = true →
  (∃ n, g.node? e.source = some n ∧ n.isReference = true) ∧
    ∃ n, g.node? e.target = some n ∧ n.declaresName = true

theorem Unbound.bindsNames {g : Graph} (h : g.Unbound) : g.BindsNames := by
  intro e he hbinds
  rw [h e he] at hbinds
  cases hbinds

theorem BindsNames.bindAll {g : Graph} (h : g.BindsNames) {bs : List BoundReference}
    (hbs : ∀ b ∈ bs, g.BindsName b) : (g.bindAll bs).1.BindsNames := by
  refine (bindAll_induction (P := fun g' => g.Extends g' ∧ g'.BindsNames) bs g ?_ ⟨.refl g, h⟩).2
  rintro b hb g' g'' new ⟨hext, hg'⟩ hbind
  refine ⟨hext.trans (extends_bindReference hbind), ?_⟩
  rcases bindReference_cases hbind with rfl | ⟨-, rfl⟩
  · exact hg'
  · intro e he hbinds
    rcases List.mem_append.mp he with he | he
    · exact hg' e he hbinds
    · rw [List.mem_singleton.mp he]
      simp only [node?, hext.1]
      exact hbs b hb

/-- References denote what declares their name. -/
theorem Structured.bindsName_of_mem_meanings {top : Span} {g : Graph} (h : g.Structured top)
    (ho : g.ScopesOrdered) {b : BoundReference} (hb : b ∈ meanings g.meaning g.references) :
    g.BindsName b := by
  obtain ⟨hi, hm⟩ := mem_meanings.mp hb
  exact ⟨mem_references.mp hi, (h.bindingFor_eq_meaning ho hi).2 _ hm⟩

/-- Resolving a graph without bindings binds each reference at most once, and only
references, to what declares their name. -/
theorem Structured.bindings_of_resolve {top : Span} {g : Graph} (h : g.Structured top)
    (ho : g.ScopesOrdered) (hfree : g.Unbound) :
    ∃ g' counts, g.resolve = .ok (g', counts) ∧ g.Extends g' ∧ g'.SingleBindings ∧
      g'.BindsNames := by
  obtain ⟨g', rfl, hresolve, -⟩ := h.resolve_eq_ok ho
  refine ⟨_, _, hresolve, extends_resolve hresolve, hfree.singleBindings.bindAll _, ?_⟩
  apply hfree.bindsNames.bindAll
  intro b hb
  exact h.bindsName_of_mem_meanings ho hb

theorem Extends.innerScopes {P : Span → Prop} {g g' : Graph} (h : g.Extends g')
    (hg : g.InnerScopes P) : g'.InnerScopes P := by
  intro i s hi hs
  rw [node?, h.1, ← node?] at hs
  exact hg i s hi hs

/-! ### Errors that cannot occur -/

/-- No structural error occurs, except that a node which is no reference cannot be
looked up, and no walk through the graph is cut short by the count of its steps. -/
structure Undamaged (g : Graph) : Prop where
  /-- A look-up finds damage exactly at the nodes that are no references. -/
  damaged_iff : ∀ i, (∃ damage, g.bindingFor i = .error (.damaged damage)) ↔
    ¬ ∃ span name symbol, g.node? i = some (.reference span name symbol)
  parent_ok : ∀ i s, g.node? i = some (.scope s) → ∃ outer, g.parent i = .ok outer
  allBindings_ok : ∃ bindings, g.allBindings = .ok bindings
  /-- A look-up that may visit more scopes has the same result. -/
  visits : ∀ i span name symbol, g.node? i = some (.reference span name symbol) →
    ∃ innermost, g.smallestScope span = .ok innermost ∧ ∀ n, g.order ≤ n →
      g.bindingFor i = (g.lookup span name symbol n innermost).mapError .damaged
  /-- A descent that may make more steps ends at the same scope, and it ends because no
  child of that scope contains the span. -/
  steps : ∀ span, ∃ innermost, g.smallestScope span = .ok innermost ∧
    g.closestChild? innermost span = .ok none ∧
    ∀ n, g.order ≤ n → g.descend span n root = .ok innermost

theorem bindingFor_of_not_reference {g : Graph} {i : Nat}
    (h : ¬ ∃ span name symbol, g.node? i = some (.reference span name symbol)) :
    g.bindingFor i = .error (.damaged (.notReference i)) := by
  unfold bindingFor
  split
  · next span name symbol hn => exact absurd ⟨span, name, symbol, hn⟩ h
  · rfl

namespace Structured

variable {top : Span} {g : Graph}

/-- The descent from the root ends where no child contains the span, for every bound
that covers the nodes. -/
theorem descend_root_eq_ok (h : g.Structured top) (ho : g.ScopesOrdered) (span : Span) :
    ∃ innermost, g.smallestScope span = .ok innermost ∧
      g.closestChild? innermost span = .ok none ∧
      ∀ n, g.order ≤ n → g.descend span n root = .ok innermost := by
  obtain ⟨m, hm, hdesc⟩ := h.smallestScope_eq_ok ho span
  refine ⟨m, hm, ?_, fun n hn => ?_⟩
  · rcases h.closestChild?_cases ho m span with ⟨hnone, -⟩ | ⟨child, -, hclosest⟩
    · exact hnone
    · have hno := hdesc.innermost child hclosest.isChild
      rw [hclosest.contains] at hno
      cases hno
  · have hroot := h.root_lt
    rw [← hm]
    exact h.descend_congr ho span n g.order root hroot (by omega) (by omega)

theorem undamaged (h : g.Structured top) (ho : g.ScopesOrdered) : g.Undamaged where
  damaged_iff := by
    intro i
    constructor
    · rintro ⟨damage, hd⟩ ⟨span, name, symbol, hn⟩
      rw [(h.bindingFor_eq_ok ho (mem_references.mpr ⟨_, hn, rfl⟩)).1] at hd
      cases hd
    · intro hno
      exact ⟨_, bindingFor_of_not_reference hno⟩
  parent_ok := fun _ _ => h.parent_eq_ok
  allBindings_ok := ⟨_, (h.allBindings_eq_ok ho).1⟩
  visits := by
    intro i span name symbol hn
    obtain ⟨m, hm, hdesc⟩ := h.smallestScope_eq_ok ho span
    obtain ⟨s, hs⟩ := hdesc.scope_last h ⟨top, h.node?_root⟩
    obtain ⟨chain, hout⟩ := h.exists_outward m ⟨s, hs⟩
    refine ⟨m, hm, fun k hk => ?_⟩
    have hlt := node?_lt hs
    rw [h.lookup_congr span name symbol hout k g.order (by omega) hlt]
    exact bindingFor_eq_lookup hn hm
  steps := h.descend_root_eq_ok ho

end Structured

/-- **Structural errors cannot occur.**  On every graph built from events whose scopes
are ordered, and after any calls that record bindings, between whichever nodes, only
the look-up of a node that is no reference finds damage, and neither the search for a
scope nor the look-up of a reference is stopped by its bound. -/
theorem undamaged_performAll {top : Span} {symbols : SymbolTable} {events : List Event}
    {g : Graph} (hg : Graph.ofEvents top symbols events = .ok g)
    (hordered : ∀ s, .scopeStart s ∈ events → s.start.byte ≤ s.stop.byte)
    (calls : List BindingCall) : (g.performAll calls).Undamaged := by
  have hext := extends_performAll calls g
  have hscopes : g.ScopesOrdered := InnerScopes.ofEvents hg hordered
  exact (hext.structured (structured_ofEvents hg)).undamaged (hext.innerScopes hscopes)

/-- Edges from a scope to the root and from a definition to itself do no harm. -/
theorem undamaged_performAll_scope_bound :
    let events : List Event :=
      [.scopeStart ⟨⟨2, 0, 2⟩, ⟨8, 0, 8⟩⟩, .scopeStart ⟨⟨3, 0, 3⟩, ⟨7, 0, 7⟩⟩,
        .definition ⟨⟨4, 0, 4⟩, ⟨5, 0, 5⟩⟩ "f" .hoisted none,
        .reference ⟨⟨5, 0, 5⟩, ⟨6, 0, 6⟩⟩ "f" none, .scopeEnd .zero, .scopeEnd .zero]
    ∃ g, Graph.ofEvents ⟨⟨0, 0, 0⟩, ⟨9, 0, 9⟩⟩ ⟨[]⟩ events = .ok g ∧
      (∀ s, .scopeStart s ∈ events → s.start.byte ≤ s.stop.byte) ∧
      (g.performAll [.bind 2 (.definition 0), .bind 3 (.imported 3), .resolve]).Undamaged := by
  intro events
  have hordered : ∀ s, .scopeStart s ∈ events → s.start.byte ≤ s.stop.byte := by
    intro s hs
    simp only [events, List.mem_cons, Event.scopeStart.injEq, reduceCtorEq, List.not_mem_nil,
      or_false] at hs
    rcases hs with rfl | rfl <;> simp
  have hg : Graph.ofEvents ⟨⟨0, 0, 0⟩, ⟨9, 0, 9⟩⟩ ⟨[]⟩ events = .ok _ := rfl
  exact ⟨_, hg, hordered, undamaged_performAll hg hordered _⟩

end Graph
end NameBinding
