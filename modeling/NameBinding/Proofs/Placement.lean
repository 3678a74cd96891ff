import NameBinding.Proofs.Descent
import NameBinding.Proofs.Regions

/-!
# Where captures are placed

The events of regular captures build a graph that mirrors them: one scope for each
span of a scope, below the smallest other scope around it, and for each span that
declares a name the first capture there, declared in its home.  The invariant joins
two stacks, the spans that are open while the events are made and the scopes that are
open while they are taken in.

## Main definitions

* `Capture.declaration?` — the node of a capture that declares a name.
* `Graph.Mirrors` — the scopes and declarations of a graph are those of captures.
* `Construction.Mirrors` — the same of a construction, with its open scopes.

## Main results

* `Construction.Mirrors.take` — one capture keeps the invariant.
* `Construction.Mirrors.emit` — **so do all of them, and no scope stays open.**
* `Graph.ofEvents_mirrors` — the events of regular captures are accepted, and the graph
  mirrors the captures.
-/

namespace NameBinding

/-- The node of a capture that declares a name. -/
def Capture.declaration? (symbols : SymbolTable) (c : Capture) : Option Node :=
  match c.role with
  | .definition _ => some (.definition c.span c.text (c.symbol.bind symbols.indexOf?))
  | .imported => some (.imported c.span (importedName c.text))
  | .scope | .reference | .ignored => none

namespace Capture

theorem declaration?_span {symbols : SymbolTable} {c : Capture} {n : Node}
    (h : c.declaration? symbols = some n) : n.span = c.span ∧ n.isScope = false := by
  unfold declaration? at h
  split at h <;> cases h
  · exact ⟨rfl, rfl⟩
  · exact ⟨rfl, rfl⟩

theorem mem_scopeSpans_append {top s : Span} {done : List Capture} {c : Capture} :
    s ∈ scopeSpans top (done ++ [c]) ↔ s ∈ scopeSpans top done ∨ c.role = .scope ∧ c.span = s := by
  simp only [mem_scopeSpans, List.mem_append, List.mem_singleton, or_and_right, exists_or,
    exists_eq_left, or_assoc]

end Capture

open Capture

/-! ### The graph -/

/-- The scopes of the graph are those of the captures `done`, each below the smallest
other scope of `all`, and what it declares are first captures of `all`, each in its
home. -/
structure Graph.Mirrors (top : Span) (symbols : SymbolTable) (all done : List Capture)
    (g : Graph) : Prop where
  scopes : ∀ s, (∃ i, g.node? i = some (.scope s)) ↔ s ∈ scopeSpans top done
  unique : ∀ i j s, g.node? i = some (.scope s) → g.node? j = some (.scope s) → i = j
  parents : ∀ p i, g.IsChild p i →
    Span.IsInnermost ((scopeSpans top all).filter (· ≠ g.spanOf i)) (g.spanOf i) (g.spanOf p)
  declared : ∀ e ∈ g.edges, e.kind.declares = true →
    ∃ d ∈ all, all.find? (fun c => c.role.declares && c.span == d.span) = some d ∧
      g.node? e.source = d.declaration? symbols ∧ Home top all d (g.spanOf e.target)

namespace Graph.Mirrors

variable {top : Span} {symbols : SymbolTable} {all done : List Capture} {g : Graph}

theorem ofRoot (top : Span) (symbols : SymbolTable) (all : List Capture) :
    (Graph.ofRoot top).Mirrors top symbols all [] where
  scopes := by
    intro s
    constructor
    · rintro ⟨i, hi⟩
      have hlt := Graph.node?_lt hi
      simp only [Graph.order, Graph.ofRoot, List.length_singleton] at hlt
      obtain rfl : i = 0 := by omega
      cases hi
      exact mem_scopeSpans.mpr (Or.inl rfl)
    · intro hs
      obtain rfl : s = top := by simpa [mem_scopeSpans] using hs
      exact ⟨0, rfl⟩
  unique := by
    intro i j s hi hj
    have hilt := Graph.node?_lt hi
    have hjlt := Graph.node?_lt hj
    simp only [Graph.order, Graph.ofRoot, List.length_singleton] at hilt hjlt
    omega
  parents := by simp [Graph.IsChild, Graph.ofRoot]
  declared := by simp [Graph.ofRoot]

/-- A capture that is no scope, or one whose scope is there, adds no scope. -/
theorem skip (h : g.Mirrors top symbols all done) {c : Capture}
    (hc : c.role = .scope → ∃ i, g.node? i = some (.scope c.span)) :
    g.Mirrors top symbols all (done ++ [c]) := by
  refine ⟨fun s => ?_, h.unique, h.parents, h.declared⟩
  rw [mem_scopeSpans_append, h.scopes]
  refine ⟨Or.inl, fun hs => hs.elim id ?_⟩
  rintro ⟨hrole, rfl⟩
  exact (h.scopes _).mp (hc hrole)

private theorem declared_addInside (hg : g.Structured top) (h : g.Mirrors top symbols all done)
    {n : Node} {kind : Relation} {p : Nat} :
    ∀ e ∈ g.edges, e.kind.declares = true →
      ∃ d ∈ all, all.find? (fun c => c.role.declares && c.span == d.span) = some d ∧
        (g.addInside n kind p).node? e.source = d.declaration? symbols ∧
        Home top all d ((g.addInside n kind p).spanOf e.target) := by
  intro e he hk
  obtain ⟨hs, ht⟩ := hg.edge_lt he (Relation.binds_of_declares _ hk)
  rw [Graph.node?_addInside_of_lt hs, Graph.spanOf_addInside_of_lt ht]
  exact h.declared e he hk

private theorem parents_addInside (hg : g.Structured top) (h : g.Mirrors top symbols all done)
    {n : Node} {kind : Relation} {q : Nat} :
    ∀ p i, g.IsChild p i →
      Span.IsInnermost ((scopeSpans top all).filter (· ≠ (g.addInside n kind q).spanOf i))
        ((g.addInside n kind q).spanOf i) ((g.addInside n kind q).spanOf p) := by
  intro p i hchild
  have hlt : i < g.order ∧ p < g.order := hg.edge_lt hchild rfl
  rw [Graph.spanOf_addInside_of_lt hlt.1, Graph.spanOf_addInside_of_lt hlt.2]
  exact h.parents p i hchild

/-- A scope that is new goes below the smallest other one around it. -/
theorem withScope (hg : g.Structured top) (h : g.Mirrors top symbols all done) {c : Capture}
    {p : Nat} (hrole : c.role = .scope) (hp : p < g.order) (hnew : c.span ∉ scopeSpans top done)
    (hin : Span.IsInnermost ((scopeSpans top all).filter (· ≠ c.span)) c.span (g.spanOf p)) :
    (g.withScope c.span p).Mirrors top symbols all (done ++ [c]) := by
  have hfresh : ∀ i, g.node? i ≠ some (.scope c.span) :=
    fun i hi => hnew ((h.scopes _).mp ⟨i, hi⟩)
  refine ⟨fun s => ?_, ?_, ?_, ?_⟩
  · rw [mem_scopeSpans_append, ← h.scopes]
    constructor
    · rintro ⟨i, hi⟩
      rw [Graph.withScope, Graph.node?_addInside] at hi
      split at hi
      · cases hi
        exact Or.inr ⟨hrole, rfl⟩
      · exact Or.inl ⟨i, hi⟩
    · rintro (⟨i, hi⟩ | ⟨-, rfl⟩)
      · exact ⟨i, by rw [Graph.withScope, Graph.node?_addInside_of_lt (Graph.node?_lt hi), hi]⟩
      · exact ⟨g.order, by simp [Graph.withScope, Graph.node?_addInside]⟩
  · intro i j s hi hj
    rw [Graph.withScope, Graph.node?_addInside] at hi hj
    split at hi <;> split at hj
    · omega
    · cases hi
      exact absurd hj (hfresh j)
    · cases hj
      exact absurd hi (hfresh i)
    · exact h.unique i j s hi hj
  · intro q i hchild
    rw [Graph.IsChild, Graph.withScope, Graph.edges_addInside, List.mem_append,
      List.mem_singleton] at hchild
    rcases hchild with hold | hnew
    · exact parents_addInside hg h q i hold
    · cases hnew
      rw [Graph.withScope, Graph.spanOf_addInside_order, Graph.spanOf_addInside_of_lt hp]
      exact hin
  · intro e he hk
    rw [Graph.withScope, Graph.edges_addInside, List.mem_append, List.mem_singleton] at he
    rcases he with he | rfl
    · exact declared_addInside hg h e he hk
    · simp [Relation.declares] at hk

/-- The first capture at its span is declared in its home. -/
theorem declare (hg : g.Structured top) (h : g.Mirrors top symbols all done) {d : Capture}
    {n : Node} {kind : Relation} {p : Nat} (hd : d ∈ all)
    (hfirst : all.find? (fun c => c.role.declares && c.span == d.span) = some d)
    (hn : d.declaration? symbols = some n) (hkind : kind.declares = true) (hp : p < g.order)
    (hhome : Home top all d (g.spanOf p)) :
    (g.addInside n kind p).Mirrors top symbols all done := by
  have hscope : ∀ i s, (g.addInside n kind p).node? i = some (.scope s) ↔
      g.node? i = some (.scope s) := by
    intro i s
    rw [Graph.node?_addInside]
    split
    · next hi =>
      rw [hi, Graph.node?, Graph.order, List.getElem?_eq_none (Nat.le_refl _)]
      refine ⟨fun hs => ?_, fun hs => by cases hs⟩
      cases hs
      cases (declaration?_span hn).2
    · rfl
  refine ⟨fun s => ?_, ?_, ?_, ?_⟩
  · simp only [hscope]
    exact h.scopes s
  · intro i j s hi hj
    exact h.unique i j s ((hscope i s).mp hi) ((hscope j s).mp hj)
  · intro q i hchild
    rw [Graph.IsChild, Graph.edges_addInside, List.mem_append, List.mem_singleton] at hchild
    rcases hchild with hold | hnew
    · exact parents_addInside hg h q i hold
    · cases hnew
      cases hkind
  · intro e he hk
    rw [Graph.edges_addInside, List.mem_append, List.mem_singleton] at he
    rcases he with he | rfl
    · exact declared_addInside hg h e he hk
    · refine ⟨d, hd, hfirst, ?_, ?_⟩
      · rw [hn, Graph.node?_addInside, if_pos rfl]
      · rwa [Graph.spanOf_addInside_of_lt hp]

theorem withReference (hg : g.Structured top) (h : g.Mirrors top symbols all done) (span : Span)
    (name : String) (symbol : Option SymbolIndex) :
    (g.withReference span name symbol).Mirrors top symbols all done := by
  have hscope : ∀ i s, (g.withReference span name symbol).node? i = some (.scope s) ↔
      g.node? i = some (.scope s) := by
    intro i s
    rw [Graph.node?_withReference]
    split
    · next hi =>
      rw [hi, Graph.node?, Graph.order, List.getElem?_eq_none (Nat.le_refl _)]
      simp
    · rfl
  refine ⟨fun s => ?_, ?_, ?_, ?_⟩
  · simp only [hscope]
    exact h.scopes s
  · intro i j s hi hj
    exact h.unique i j s ((hscope i s).mp hi) ((hscope j s).mp hj)
  · intro p i hchild
    have hlt : i < g.order ∧ p < g.order := hg.edge_lt hchild rfl
    rw [Graph.spanOf_withReference_of_lt hlt.1, Graph.spanOf_withReference_of_lt hlt.2]
    exact h.parents p i hchild
  · intro e he hk
    obtain ⟨hs, ht⟩ := hg.edge_lt he (Relation.binds_of_declares _ hk)
    rw [Graph.node?_withReference_of_lt hs, Graph.spanOf_withReference_of_lt ht]
    exact h.declared e he hk

theorem withReferences (hg : g.Structured top) (h : g.Mirrors top symbols all done)
    (rs : List PendingReference) :
    (rs.foldl (fun g r => g.withReference r.span r.name r.symbol) g).Mirrors top symbols all
      done := by
  induction rs generalizing g with
  | nil => exact h
  | cons r rs ih =>
    exact ih (hg.withReference r.span r.name r.symbol) (h.withReference hg r.span r.name r.symbol)

end Graph.Mirrors

/-! ### The construction -/

namespace Construction

/-- The graph so far mirrors the captures `done`, the open scopes have the spans
`opened`, and the spans that declare a name are those of the captures `done`. -/
structure Mirrors (top : Span) (symbols : SymbolTable) (all done : List Capture)
    (opened : List Span) (c : Construction) : Prop where
  sound : c.Sound top
  symbols_eq : c.symbols = symbols
  graph : c.graph.Mirrors top symbols all done
  opened : c.opened.map c.graph.spanOf = opened
  bound : ∀ s, s ∈ c.bound ↔ ∃ d ∈ done, d.role.declares = true ∧ d.span = s

namespace Mirrors

variable {top : Span} {symbols : SymbolTable} {all done rest : List Capture} {opened : List Span}
  {c : Construction} {y : Capture}

theorem start (top : Span) (symbols : SymbolTable) (all : List Capture) :
    (Construction.start top symbols).Mirrors top symbols all [] [] where
  sound := sound_start top symbols
  symbols_eq := rfl
  graph := .ofRoot top symbols all
  opened := rfl
  bound := by simp [Construction.start]

/-- Scope ends close the innermost scopes. -/
theorem close {es : List Span} (h : c.Mirrors top symbols all done (es ++ opened)) :
    ∃ c', c.pushAll (es.map .scopeEnd) = .ok c' ∧ c'.Mirrors top symbols all done opened := by
  induction es generalizing c with
  | nil => exact ⟨c, rfl, h⟩
  | cons e es ih =>
    have hopened := h.opened
    rw [List.cons_append] at hopened
    obtain ⟨i, is, hc, -, his⟩ := List.map_eq_cons_iff.mp hopened
    have hpush : c.push (.scopeEnd e) = .ok { c with opened := is } := by
      rw [push]
      simp only [hc]
    have hsound : ({ c with opened := is } : Construction).Sound top := h.sound.push hpush
    obtain ⟨c', hrun, hc'⟩ := ih ⟨hsound, h.symbols_eq, h.graph, his, h.bound⟩
    exact ⟨c', pushAll_cons_eq_ok.mpr ⟨_, hpush, hrun⟩, hc'⟩

/-- The scope found on one stack has the span found on the other. -/
theorem spanOf_enclosingOpen (h : c.Mirrors top symbols all done opened) (span : Span) :
    c.graph.spanOf (c.enclosingOpen span) = (opened.find? (·.contains span)).getD top := by
  have hsame : ∀ i ∈ c.opened, (c.graph.node? i).any (·.span.contains span) =
      (c.graph.spanOf i).contains span := by
    intro i hi
    obtain ⟨s, hs⟩ := h.sound.opened i hi
    rw [hs, Option.any_some, Graph.spanOf_eq hs]
  have hfind : c.opened.find? (fun i => (c.graph.node? i).any (·.span.contains span)) =
      c.opened.find? (fun i => (c.graph.spanOf i).contains span) := by
    rw [← List.head?_filter, ← List.head?_filter, List.filter_congr hsame]
  rw [enclosingOpen, hfind, ← h.opened, List.find?_map]
  cases hi : c.opened.find? (fun i => (c.graph.spanOf i).contains span) with
  | none =>
    have hnone : c.opened.find? ((·.contains span) ∘ c.graph.spanOf) = none := hi
    rw [hnone]
    exact Graph.spanOf_eq h.sound.structured.node?_root
  | some i =>
    have hsome : c.opened.find? ((·.contains span) ∘ c.graph.spanOf) = some i := hi
    rw [hsome]
    rfl

/-- The innermost open scope around a capture that is no scope is the smallest one. -/
theorem innermost (hreg : Regular top (done ++ y :: rest))
    (hsorted : (done ++ y :: rest).Pairwise (precedes · · = true))
    (ho : OpenScopes done (y :: rest) opened)
    (h : c.Mirrors top symbols (done ++ y :: rest) done opened) (hrole : y.role ≠ .scope) :
    Span.IsInnermost (scopeSpans top (done ++ y :: rest)) y.span
      (c.graph.spanOf (c.enclosingOpen y.span)) := by
  obtain ⟨hmem, hcontains, hleast⟩ := ho.innermost hreg hsorted
  rw [h.spanOf_enclosingOpen]
  refine ⟨hmem, hcontains, fun u hu huy => ?_⟩
  exact (hleast u hu huy).resolve_left fun hscope => hrole hscope.1

/-- **A definition is declared in its home.** -/
theorem home_homeOf (hreg : Regular top (done ++ y :: rest))
    (hsorted : (done ++ y :: rest).Pairwise (precedes · · = true))
    (ho : OpenScopes done (y :: rest) opened)
    (h : c.Mirrors top symbols (done ++ y :: rest) done opened) {scoping : Scoping}
    (hrole : y.role = .definition scoping) :
    Home top (done ++ y :: rest) y (c.graph.spanOf (c.homeOf y.span scoping)) := by
  have hin := h.innermost hreg hsorted ho (by rw [hrole]; exact fun h => by cases h)
  have hroot : c.graph.spanOf Graph.root = top := Graph.spanOf_eq h.sound.structured.node?_root
  cases scoping with
  | localScope =>
    simp only [Home, hrole]
    exact hin
  | globalScope =>
    simp only [Home, hrole]
    exact hroot
  | hoisted =>
    simp only [Home, hrole]
    refine ⟨_, hin, ?_⟩
    rw [homeOf]
    by_cases hr : c.enclosingOpen y.span = Graph.root
    · -- nothing lies around the root
      right
      rw [Graph.outerScope?, hr, h.sound.structured.parent_root, hroot]
      refine ⟨fun u hu hcontains => ?_, hroot⟩
      exact hreg.eq_of_contains (Regular.span_mem hu) (List.mem_cons_self ..) hcontains
        (hreg.top_contains hu)
    · left
      obtain ⟨s, hs, -⟩ := h.sound.enclosingOpen y.span
      obtain ⟨p, hp⟩ := h.sound.structured.exists_parent hr hs
      rw [Graph.outerScope?, hp]
      exact h.graph.parents p _ (h.sound.structured.parent_eq_ok_iff.mp hp)

/-- The innermost open scope around a scope that is new is the smallest other one. -/
theorem innermost_of_new (hreg : Regular top (done ++ y :: rest))
    (hsorted : (done ++ y :: rest).Pairwise (precedes · · = true))
    (ho : OpenScopes done (y :: rest) opened)
    (h : c.Mirrors top symbols (done ++ y :: rest) done opened)
    (hspan : c.graph.spanOf (c.enclosingOpen y.span) ≠ y.span) :
    y.span ∉ scopeSpans top done ∧
      Span.IsInnermost ((scopeSpans top (done ++ y :: rest)).filter (· ≠ y.span)) y.span
        (c.graph.spanOf (c.enclosingOpen y.span)) := by
  obtain ⟨hmem, hcontains, hleast⟩ := ho.innermost hreg hsorted
  rw [← h.spanOf_enclosingOpen] at hmem hcontains hleast
  constructor
  · intro hold
    rw [h.spanOf_enclosingOpen] at hspan
    exact hspan (ho.innermost_eq hreg hsorted hold)
  · refine ⟨List.mem_filter.mpr ⟨hmem, by simp [hspan]⟩, hcontains, fun u hu huy => ?_⟩
    obtain ⟨hu, hne⟩ := List.mem_filter.mp hu
    rw [decide_eq_true_eq] at hne
    exact (hleast u hu huy).resolve_left fun heq => hne heq.2

/-- A span that has no scope yet gets one, and that one is open. -/
theorem newScope (hreg : Regular top (done ++ y :: rest))
    (hsorted : (done ++ y :: rest).Pairwise (precedes · · = true))
    (ho : OpenScopes done (y :: rest) opened)
    (h : c.Mirrors top symbols (done ++ y :: rest) done opened) (hrole : y.role = .scope)
    (hfits : c.graph.Fits (.scope y.span) (c.enclosingOpen y.span)) :
    let g := c.graph.withScope y.span (c.enclosingOpen y.span)
    g.Mirrors top symbols (done ++ y :: rest) (done ++ [y]) ∧
      (c.graph.order :: c.opened).map g.spanOf = y.span :: opened := by
  intro g
  obtain ⟨hnew, hin⟩ := h.innermost_of_new hreg hsorted ho (hfits.fresh rfl).1
  obtain ⟨s, hs, -⟩ := hfits.scope
  refine ⟨h.graph.withScope h.sound.structured hrole (Graph.node?_lt hs) hnew hin, ?_⟩
  have hold : c.opened.map g.spanOf = c.opened.map c.graph.spanOf := by
    refine List.map_congr_left fun i hi => ?_
    obtain ⟨t, ht⟩ := h.sound.opened i hi
    exact Graph.spanOf_addInside_of_lt (Graph.node?_lt ht)
  rw [List.map_cons, hold, h.opened]
  congr 1
  exact Graph.spanOf_addInside_order ..

/-- A scope is opened: the one that has its span, or else a new one. -/
theorem openScope (hreg : Regular top (done ++ y :: rest))
    (hsorted : (done ++ y :: rest).Pairwise (precedes · · = true))
    (ho : OpenScopes done (y :: rest) opened)
    (h : c.Mirrors top symbols (done ++ y :: rest) done opened) (hrole : y.role = .scope) :
    (c.openScope y.span).Mirrors top symbols (done ++ y :: rest) (done ++ [y])
      (y.span :: opened) := by
  have hsound := h.sound.openScope y.span
  have hbound : ∀ s, s ∈ c.bound ↔ ∃ d ∈ done ++ [y], d.role.declares = true ∧ d.span = s := by
    intro s
    simp [h.bound, hrole, Role.declares, Role.isDefinition, Role.isImport, or_and_right, exists_or]
  rcases h.sound.openScope_cases y.span with ⟨i, hi, heq⟩ | ⟨hfits, heq⟩
  · rw [heq] at hsound ⊢
    refine ⟨hsound, h.symbols_eq, h.graph.skip fun _ => ⟨i, hi⟩, ?_, hbound⟩
    rw [List.map_cons, Graph.spanOf_eq hi, h.opened]
    rfl
  · rw [heq] at hsound ⊢
    obtain ⟨hgraph, hopened⟩ := h.newScope hreg hsorted ho hrole hfits
    exact ⟨hsound, h.symbols_eq, hgraph, hopened, hbound⟩

/-- A capture whose span declares a name already changes nothing. -/
theorem repeated (h : c.Mirrors top symbols all done opened) (hrole : y.role ≠ .scope)
    (hb : y.role.declares = true → y.span ∈ c.bound) :
    c.Mirrors top symbols all (done ++ [y]) opened := by
  refine ⟨h.sound, h.symbols_eq, h.graph.skip fun hs => absurd hs hrole, h.opened, fun s => ?_⟩
  simp only [List.mem_append, List.mem_singleton, or_and_right, exists_or, exists_eq_left]
  rw [← h.bound]
  refine ⟨Or.inl, fun hs => hs.elim id ?_⟩
  rintro ⟨hdecl, rfl⟩
  exact hb hdecl

/-- The first capture at its span is declared. -/
theorem declare (h : c.Mirrors top symbols (done ++ y :: rest) done opened) {n : Node}
    {kind : Relation} {p : Nat} (hdecl : y.role.declares = true) (hb : y.span ∉ c.bound)
    (hn : y.declaration? symbols = some n) (hkind : n.attachment = some kind)
    (hp : ∃ s, c.graph.node? p = some (.scope s) ∧ (p = Graph.root ∨ s.contains y.span))
    (hhome : Home top (done ++ y :: rest) y (c.graph.spanOf p)) :
    ({ c with graph := c.graph.addInside n kind p, bound := y.span :: c.bound } :
      Construction).Mirrors top symbols (done ++ y :: rest) (done ++ [y]) opened := by
  obtain ⟨hspan, hscope⟩ := declaration?_span hn
  have hrole : y.role ≠ .scope := by
    intro hr
    simp [hr, Role.declares, Role.isDefinition, Role.isImport] at hdecl
  have hfirst : (done ++ y :: rest).find? (fun c => c.role.declares && c.span == y.span) =
      some y := by
    rw [List.find?_append, List.find?_eq_none.mpr, Option.none_or, List.find?_cons_of_pos]
    · simp [hdecl]
    · intro d hd hsame
      rw [Bool.and_eq_true, beq_iff_eq] at hsame
      exact hb ((h.bound _).mpr ⟨d, hd, hsame.1, hsame.2⟩)
  have hk : kind.declares = true := by
    cases n <;> cases hkind <;> first | rfl | cases hscope
  obtain ⟨s, hs, hcontains⟩ := hp
  have hsound : ({ c with
      graph := c.graph.addInside n kind p
      bound := y.span :: c.bound } : Construction).Sound top :=
    h.sound.declare hkind hscope ⟨s, hs, by rw [hspan]; exact hcontains⟩
  have hgraph := h.graph.declare h.sound.structured (by simp) hfirst hn hk (Graph.node?_lt hs) hhome
  refine ⟨hsound, h.symbols_eq, hgraph.skip fun hr => absurd hr hrole, ?_, fun t => ?_⟩
  · rw [← h.opened]
    refine List.map_congr_left fun i hi => ?_
    obtain ⟨u, hu⟩ := h.sound.opened i hi
    exact Graph.spanOf_addInside_of_lt (Graph.node?_lt hu)
  · simp only [List.mem_append, List.mem_singleton, or_and_right, exists_or, exists_eq_left]
    rw [← h.bound, List.mem_cons]
    constructor
    · rintro (rfl | ht)
      · exact Or.inr ⟨hdecl, rfl⟩
      · exact Or.inl ht
    · rintro (ht | ⟨-, rfl⟩)
      · exact Or.inr ht
      · exact Or.inl rfl

/-- **One capture keeps the invariant.** -/
theorem take (hreg : Regular top (done ++ y :: rest))
    (hsorted : (done ++ y :: rest).Pairwise (precedes · · = true))
    (ho : OpenScopes done (y :: rest) opened)
    (h : c.Mirrors top symbols (done ++ y :: rest) done opened) :
    ∃ c', c.pushAll y.toEvent?.toList = .ok c' ∧
      c'.Mirrors top symbols (done ++ y :: rest) (done ++ [y]) (y.openedBy opened) := by
  cases hrole : y.role with
  | scope =>
    refine ⟨c.openScope y.span, by rw [toEvent?, hrole]; rfl, ?_⟩
    rw [openedBy, hrole]
    exact h.openScope hreg hsorted ho hrole
  | definition scoping =>
    rw [openedBy, hrole, if_neg (by simp), toEvent?]
    simp only [hrole]
    by_cases hb : y.span ∈ c.bound
    · refine ⟨c, ?_, h.repeated (by simp [hrole]) fun _ => hb⟩
      simp [pushAll, push, hb, pure, Except.pure, bind, Except.bind]
    · have hn : y.declaration? symbols =
          some (.definition y.span y.text (c.classify y.symbol)) := by
        rw [declaration?, hrole, ← h.symbols_eq]
        rfl
      refine ⟨_, ?_, h.declare (by rw [hrole]; rfl) hb hn rfl (h.sound.homeOf y.span scoping)
        (h.home_homeOf hreg hsorted ho hrole)⟩
      simp [pushAll, push, hb, Graph.withDefinition, pure, Except.pure, bind, Except.bind]
  | imported =>
    rw [openedBy, hrole, if_neg (by simp), toEvent?]
    simp only [hrole]
    by_cases hb : y.span ∈ c.bound
    · refine ⟨c, ?_, h.repeated (by simp [hrole]) fun _ => hb⟩
      simp [pushAll, push, hb, pure, Except.pure, bind, Except.bind]
    · have hin := h.innermost hreg hsorted ho (by simp [hrole])
      have hn : y.declaration? symbols = some (.imported y.span (importedName y.text)) := by
        rw [declaration?, hrole]
      refine ⟨_, ?_, h.declare (by rw [hrole]; rfl) hb hn rfl (h.sound.enclosingOpen y.span)
        (by simp only [Home, hrole]; exact hin)⟩
      simp [pushAll, push, hb, Graph.withImport, pure, Except.pure, bind, Except.bind]
  | reference =>
    have hskip := h.repeated (y := y) (by simp [hrole]) (by rw [hrole]; exact fun h => by cases h)
    rw [openedBy, hrole, if_neg (by simp), toEvent?]
    simp only [hrole]
    exact ⟨_, rfl, ⟨hskip.sound.structured, hskip.sound.opened⟩, hskip.symbols_eq, hskip.graph,
      hskip.opened, hskip.bound⟩
  | ignored =>
    rw [openedBy, hrole, if_neg (by simp), toEvent?]
    simp only [hrole]
    exact ⟨c, rfl, h.repeated (by simp [hrole]) (by rw [hrole]; exact fun h => by cases h)⟩

end Mirrors

/-- **The events of regular captures in order are accepted**, from any point on, and in
the end no scope is open. -/
theorem Mirrors.emit {top : Span} {symbols : SymbolTable} {all : List Capture}
    (hreg : Regular top all) (hsorted : all.Pairwise (precedes · · = true)) :
    ∀ (rest done : List Capture) (opened : List Span) (c : Construction), done ++ rest = all →
      OpenScopes done rest opened → c.Mirrors top symbols all done opened →
      ∃ c', c.pushAll (Capture.emit opened rest) = .ok c' ∧ c'.Mirrors top symbols all all [] := by
  intro rest
  induction rest with
  | nil =>
    intro done opened c hall ho h
    rw [List.append_nil] at hall
    subst hall
    exact Mirrors.close (by rwa [List.append_nil])
  | cons y rest ih =>
    intro done opened c hall ho h
    subst hall
    -- first the scopes that have ended are closed, then the capture is taken
    rw [← ended_append_remaining y.span.start.byte opened] at h
    obtain ⟨c₁, hclose, h₁⟩ := h.close
    obtain ⟨c₂, htake, h₂⟩ := h₁.take hreg hsorted (ho.close hsorted)
    obtain ⟨c₃, hrun, h₃⟩ := ih (done ++ [y]) _ c₂ (by simp) (ho.take hreg hsorted) h₂
    refine ⟨c₃, ?_, h₃⟩
    rw [Capture.emit, List.append_assoc, pushAll_append hclose, pushAll_append htake, hrun]

end Construction

/-- **The events of regular captures are accepted, and the graph mirrors the captures.** -/
theorem Graph.ofEvents_mirrors {top : Span} {captures : List Capture} (symbols : SymbolTable)
    (hreg : Regular top captures) :
    ∃ g, Graph.ofEvents top symbols (events captures) = .ok g ∧
      g.Mirrors top symbols (inOrder captures) (inOrder captures) := by
  have hreg' : Regular top (inOrder captures) := hreg.mono fun c hc => mem_of_mem_inOrder hc
  obtain ⟨c, hrun, hc⟩ := Construction.Mirrors.emit hreg' (pairwise_inOrder captures)
    (inOrder captures) [] [] (.start top symbols) (by simp) (.nil _) (.start top symbols _)
  have hnone : c.opened = [] := List.map_eq_nil_iff.mp hc.opened
  refine ⟨_, ?_, hc.graph.withReferences hc.sound.structured c.uses⟩
  rw [Graph.ofEvents, events, hrun]
  simp [bind, Except.bind, Construction.finish, hnone]

end NameBinding
