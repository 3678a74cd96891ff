import NameBinding.Construction
import NameBinding.Proofs.Structure
import NameBinding.Resolution

/-!
# Graphs stay structured

A graph is built from a stream of events and then has bindings recorded in it.
Neither can damage it: whatever the stream is, balanced or not, the graph under
construction is structured after every event, and so is the finished graph however
references are bound afterwards.

## Main definitions

* `Construction.offer`, `Construction.offerAll` — push events; a refused one changes
  nothing.
* `BindingCall`, `Graph.perform`, `Graph.performAll` — the calls that record bindings.
* `Graph.Extends` — the graph with more bindings, and nothing else.
* `Graph.InnerScopes` — what holds of the spans of all scopes but the root.

## Main results

* `Construction.Sound.offerAll` — the invariant of the construction.
* `Graph.extends_performAll` — a sequence of calls only adds bindings.
* `structured_throughout` — **every graph met on the way is structured.**
-/

namespace NameBinding

theorem Span.contains_trans {s t u : Span} (hst : s.contains t = true) (htu : t.contains u = true) :
    s.contains u = true := by
  simp only [contains, Bool.and_eq_true, decide_eq_true_eq] at *
  omega

namespace Graph

/-! ### Recording bindings -/

/-- The graph `g'` is `g` with more bindings. -/
def Extends (g g' : Graph) : Prop :=
  g'.nodes = g.nodes ∧ ∃ es, g'.edges = g.edges ++ es ∧ ∀ e ∈ es, e.kind.binds = true

namespace Extends

theorem refl (g : Graph) : g.Extends g := ⟨rfl, [], by simp, by simp⟩

theorem trans {g₁ g₂ g₃ : Graph} (h : g₁.Extends g₂) (h' : g₂.Extends g₃) : g₁.Extends g₃ := by
  obtain ⟨hn, es, he, hes⟩ := h
  obtain ⟨hn', es', he', hes'⟩ := h'
  refine ⟨hn'.trans hn, es ++ es', ?_, ?_⟩
  · rw [he', he, List.append_assoc]
  · intro e hmem
    rcases List.mem_append.mp hmem with hmem | hmem
    · exact hes e hmem
    · exact hes' e hmem

theorem structured {top : Span} {g g' : Graph} (h : g.Extends g') (hg : g.Structured top) :
    g'.Structured top := by
  obtain ⟨hn, es, he, hes⟩ := h
  have heq : g' = { g with edges := g.edges ++ es } := by
    cases g'
    simp only at hn he
    rw [hn, he]
  rw [heq]
  exact hg.addBindings hes

end Extends

theorem Binding.binds_relation (b : Binding) : b.relation.binds = true := by cases b <;> rfl

/-- Recording a binding changes nothing, or adds its edge to a reference that had none. -/
theorem bindReference_cases {g g' : Graph} {reference : Nat} {binding : Binding} {new : Bool}
    (h : g.bindReference reference binding = .ok (g', new)) :
    g' = g ∨ (g.outgoing reference Relation.binds = [] ∧
      g' = { g with edges := g.edges ++ [⟨reference, binding.node, binding.relation⟩] }) := by
  unfold bindReference at h
  split at h
  · cases h
    exact Or.inl rfl
  · next hfree =>
    split at h
    · cases h
      refine Or.inr ⟨?_, rfl⟩
      rwa [boundTo?, List.isSome_head?, ne_eq, Decidable.not_not] at hfree
    · cases h

theorem extends_bindReference {g g' : Graph} {reference : Nat} {binding : Binding} {new : Bool}
    (h : g.bindReference reference binding = .ok (g', new)) : g.Extends g' := by
  rcases bindReference_cases h with rfl | ⟨-, rfl⟩
  · exact .refl g'
  · refine ⟨rfl, _, rfl, ?_⟩
    intro e he
    rw [List.mem_singleton.mp he]
    exact Binding.binds_relation binding

/-- What recording each of several bindings preserves, recording all of them does. -/
theorem bindAll_induction {P : Graph → Prop} : ∀ (bs : List BoundReference) (g : Graph),
    (∀ b ∈ bs, ∀ g g' new, P g → g.bindReference b.reference b.binding = .ok (g', new) → P g') →
    P g → P (g.bindAll bs).1 := by
  intro bs
  induction bs with
  | nil => intro g _ hg; exact hg
  | cons b bs ih =>
    intro g hstep hg
    rw [bindAll]
    cases h : g.bindReference b.reference b.binding with
    | error fault => exact hg
    | ok r =>
      apply ih r.1 fun b' hb' => hstep b' (List.mem_cons_of_mem _ hb')
      exact hstep b (List.mem_cons_self ..) g r.1 r.2 hg h

theorem extends_bindAll (bs : List BoundReference) (g : Graph) : g.Extends (g.bindAll bs).1 := by
  apply bindAll_induction bs g _ (.refl g)
  intro b _ g' g'' new hext h
  exact hext.trans (extends_bindReference h)

/-- Resolving is recording what all references denote. -/
theorem bindAll_of_resolve {g g' : Graph} {counts : BindingCounts}
    (h : g.resolve = .ok (g', counts)) :
    ∃ bs, g.allBindings = .ok bs ∧ g.bindAll bs = (g', .ok counts) := by
  unfold resolve at h
  cases hb : g.allBindings with
  | error e => rw [hb] at h; cases h
  | ok bs =>
    rw [hb] at h
    cases hc : (g.bindAll bs).2 with
    | error fault => simp [bind, Except.bind, hc] at h
    | ok counts' =>
      simp only [bind, Except.bind, hc, Error.ofFault_ok, pure, Except.pure, Except.ok.injEq,
        Prod.mk.injEq] at h
      exact ⟨bs, rfl, Prod.ext h.1 (by rw [hc, h.2])⟩

theorem extends_resolve {g g' : Graph} {counts : BindingCounts} (h : g.resolve = .ok (g', counts)) :
    g.Extends g' := by
  obtain ⟨bs, -, hbs⟩ := bindAll_of_resolve h
  have hext := extends_bindAll bs g
  rwa [hbs] at hext

end Graph

/-- A call that records bindings in a graph. -/
inductive BindingCall where
  /-- Bind one reference. -/
  | bind (reference : Nat) (binding : Binding)
  /-- Bind several references, in order. -/
  | bindAll (bindings : List BoundReference)
  /-- Bind every reference to what it denotes. -/
  | resolve
  deriving DecidableEq, Repr

namespace Graph

/-- The graph after a call; one that fails before it records anything leaves the
graph as it was. -/
def perform (g : Graph) : BindingCall → Graph
  | .bind reference binding =>
      match g.bindReference reference binding with
      | .ok (g', _) => g'
      | .error _ => g
  | .bindAll bindings => (g.bindAll bindings).1
  | .resolve =>
      match g.resolve with
      | .ok (g', _) => g'
      | .error _ => g

/-- The graph after several calls. -/
def performAll (g : Graph) (calls : List BindingCall) : Graph := calls.foldl perform g

theorem extends_perform (g : Graph) (call : BindingCall) : g.Extends (g.perform call) := by
  cases call with
  | bind reference binding =>
    rw [perform]
    cases h : g.bindReference reference binding with
    | error fault => exact .refl g
    | ok r => exact extends_bindReference h
  | bindAll bindings => exact extends_bindAll bindings g
  | resolve =>
    rw [perform]
    cases h : g.resolve with
    | error e => exact .refl g
    | ok r => exact extends_resolve h

theorem extends_performAll : ∀ (calls : List BindingCall) (g : Graph),
    g.Extends (g.performAll calls) := by
  intro calls
  induction calls with
  | nil => exact Extends.refl
  | cons call calls ih =>
    intro g
    exact (extends_perform g call).trans (ih (g.perform call))

end Graph

namespace Construction

/-! ### Events -/

/-- The construction after an event; one that is refused changes nothing. -/
def offer (c : Construction) (e : Event) : Construction :=
  match c.push e with
  | .ok c' => c'
  | .error _ => c

/-- The construction after several events. -/
def offerAll (c : Construction) (events : List Event) : Construction := events.foldl offer c

/-- The graph so far is structured, and only scopes are open. -/
structure Sound (top : Span) (c : Construction) : Prop where
  structured : c.graph.Structured top
  opened : ∀ i ∈ c.opened, ∃ s, c.graph.node? i = some (.scope s)

theorem sound_start (top : Span) (symbols : SymbolTable) : (start top symbols).Sound top where
  structured := .ofRoot top
  opened := by simp [start]

/-- Open scopes stay scopes when the graph grows. -/
theorem opened_addInside {c : Construction} {n : Node} {kind : Relation} {p : Nat}
    (h : ∀ i ∈ c.opened, ∃ s, c.graph.node? i = some (.scope s)) :
    ∀ i ∈ c.opened, ∃ s, (c.graph.addInside n kind p).node? i = some (.scope s) := by
  intro i hi
  obtain ⟨s, hs⟩ := h i hi
  exact ⟨s, by rw [Graph.node?_addInside_of_lt (Graph.node?_lt hs), hs]⟩

theorem scopeWithSpan?_eq_some {g : Graph} {parent child : Nat} {span : Span}
    (h : g.scopeWithSpan? parent span = some child) :
    (⟨child, parent, .scopeToScope⟩ : Edge) ∈ g.edges ∧ g.spanOf child = span := by
  have hmem := List.min?_mem h
  rw [List.mem_filter, beq_iff_eq, Graph.mem_incoming] at hmem
  obtain ⟨⟨e, he, hs, ht, hk⟩, hspan⟩ := hmem
  rw [beq_iff_eq] at hk
  exact ⟨by rw [← hs, ← ht, ← hk]; exact he, hspan⟩

theorem scopeWithSpan?_eq_none {g : Graph} {parent : Nat} {span : Span}
    (h : g.scopeWithSpan? parent span = none) :
    ∀ e ∈ g.edges, e.kind = .scopeToScope → e.target = parent → g.spanOf e.source ≠ span := by
  intro e he hk ht hspan
  rw [Graph.scopeWithSpan?, List.min?_eq_none_iff, List.filter_eq_nil_iff] at h
  exact h e.source (Graph.mem_incoming.mpr ⟨e, he, rfl, ht, by simp [hk]⟩) (by simp [hspan])

namespace Sound

variable {top : Span} {c : Construction}

/-- The innermost open scope around a span is a scope that is the root or does
contain the span. -/
theorem enclosingOpen (h : c.Sound top) (span : Span) :
    ∃ s, c.graph.node? (c.enclosingOpen span) = some (.scope s) ∧
      (c.enclosingOpen span = Graph.root ∨ s.contains span) := by
  rw [Construction.enclosingOpen]
  cases hf : c.opened.find? fun i => (c.graph.node? i).any (·.span.contains span) with
  | none => exact ⟨top, h.structured.node?_root, Or.inl rfl⟩
  | some i =>
    obtain ⟨s, hs⟩ := h.opened i (List.mem_of_find?_eq_some hf)
    have hcontains := List.find?_some hf
    rw [hs, Option.any_some] at hcontains
    exact ⟨s, hs, Or.inr hcontains⟩

/-- So is the scope a definition is declared in. -/
theorem homeOf (h : c.Sound top) (span : Span) (scoping : Scoping) :
    ∃ s, c.graph.node? (c.homeOf span scoping) = some (.scope s) ∧
      (c.homeOf span scoping = Graph.root ∨ s.contains span) := by
  cases scoping with
  | localScope => exact h.enclosingOpen span
  | globalScope => exact ⟨top, h.structured.node?_root, Or.inl rfl⟩
  | hoisted =>
    obtain ⟨s, hs, hcontains⟩ := h.enclosingOpen span
    rw [Construction.homeOf]
    by_cases hroot : c.enclosingOpen span = Graph.root
    · rw [Graph.outerScope?, hroot, h.structured.parent_root]
      exact ⟨top, h.structured.node?_root, Or.inl rfl⟩
    · obtain ⟨p, hp⟩ := h.structured.exists_parent hroot hs
      obtain ⟨-, sp, hsp, hsub⟩ := h.structured.of_parent hp
      rw [Graph.outerScope?, hp]
      refine ⟨sp, hsp, hsub.imp_right fun hsub => ?_⟩
      -- the parent contains the scope, and the scope the span
      rw [Graph.spanOf_eq hs] at hsub
      exact Span.contains_trans hsub (hcontains.resolve_left hroot)

/-- A scope is opened that has the span already, or a new one where there is none. -/
theorem openScope_cases (h : c.Sound top) (span : Span) :
    (∃ i, c.graph.node? i = some (.scope span) ∧
      c.openScope span = { c with opened := i :: c.opened }) ∨
    (c.graph.Fits (.scope span) (c.enclosingOpen span) ∧
      c.openScope span = { c with
        graph := c.graph.withScope span (c.enclosingOpen span)
        opened := c.graph.order :: c.opened }) := by
  obtain ⟨s, hs, hcontains⟩ := h.enclosingOpen span
  unfold Construction.openScope
  simp only [hs, Option.any_some, beq_iff_eq, Node.span]
  split
  · -- the parent itself is opened again
    next hspan =>
    subst hspan
    exact Or.inl ⟨_, hs, rfl⟩
  · next hspan =>
    split
    · -- a child it already has
      next child hchild =>
      obtain ⟨hedge, rfl⟩ := scopeWithSpan?_eq_some hchild
      obtain ⟨-, n, hn, hkind⟩ := h.structured.source_of_edge hedge rfl
      obtain ⟨sc, rfl⟩ := Node.attachment_eq_scopeToScope hkind
      refine Or.inl ⟨child, ?_, rfl⟩
      rw [hn, Graph.spanOf_eq hn]
      rfl
    · -- a new scope
      next hnone =>
      have hne : c.graph.spanOf (c.enclosingOpen span) ≠ span := by
        rw [Graph.spanOf_eq hs]
        exact hspan
      exact Or.inr ⟨⟨⟨s, hs, hcontains⟩, fun _ => ⟨hne, scopeWithSpan?_eq_none hnone⟩⟩, rfl⟩

theorem openScope (h : c.Sound top) (span : Span) : (c.openScope span).Sound top := by
  rcases h.openScope_cases span with ⟨i, hi, heq⟩ | ⟨hfits, heq⟩
  · rw [heq]
    refine ⟨h.structured, fun j hj => ?_⟩
    rcases List.mem_cons.mp hj with rfl | hj
    · exact ⟨span, hi⟩
    · exact h.opened j hj
  · rw [heq]
    refine ⟨h.structured.addInside rfl hfits, fun j hj => ?_⟩
    rcases List.mem_cons.mp hj with rfl | hj
    · exact ⟨span, by simp [Graph.withScope, Graph.node?_addInside]⟩
    · exact opened_addInside h.opened j hj

/-- A declaration is attached to the scope found for it. -/
theorem declare (h : c.Sound top) {n : Node} {kind : Relation} {p : Nat} {bound : List Span}
    (hkind : n.attachment = some kind) (hscope : n.isScope = false)
    (hp : ∃ s, c.graph.node? p = some (.scope s) ∧ (p = Graph.root ∨ s.contains n.span)) :
    ({ c with graph := c.graph.addInside n kind p, bound } : Construction).Sound top where
  structured := h.structured.addInside hkind ⟨hp, by simp [hscope]⟩
  opened := opened_addInside h.opened

/-- **One event keeps the construction sound.** -/
theorem push (h : c.Sound top) {e : Event} {c' : Construction} (hpush : c.push e = .ok c') :
    c'.Sound top := by
  cases e with
  | scopeStart span =>
    cases hpush
    exact h.openScope span
  | scopeEnd span =>
    rw [Construction.push] at hpush
    cases ho : c.opened with
    | nil => simp [ho] at hpush
    | cons i rest =>
      simp only [ho, Except.ok.injEq] at hpush
      subst hpush
      exact ⟨h.structured, fun j hj => h.opened j (by rw [ho]; exact List.mem_cons_of_mem _ hj)⟩
  | definition span text scoping symbol =>
    rw [Construction.push] at hpush
    split at hpush
    · cases hpush
      exact h
    · cases hpush
      exact h.declare rfl rfl (h.homeOf span scoping)
  | imported span text =>
    rw [Construction.push] at hpush
    split at hpush
    · cases hpush
      exact h
    · cases hpush
      exact h.declare rfl rfl (h.enclosingOpen span)
  | reference span text symbol =>
    cases hpush
    exact ⟨h.structured, h.opened⟩

theorem offer (h : c.Sound top) (e : Event) : (c.offer e).Sound top := by
  rw [Construction.offer]
  cases hpush : c.push e with
  | error flaw => exact h
  | ok c' => exact h.push hpush

theorem offerAll (h : c.Sound top) (events : List Event) : (c.offerAll events).Sound top := by
  induction events generalizing c with
  | nil => exact h
  | cons e events ih => exact ih (h.offer e)

theorem withReferences {g : Graph} (h : g.Structured top) (rs : List PendingReference) :
    (rs.foldl (fun g r => g.withReference r.span r.name r.symbol) g).Structured top := by
  induction rs generalizing g with
  | nil => exact h
  | cons r rs ih => exact ih (h.withReference r.span r.name r.symbol)

theorem finish (h : c.Sound top) {g : Graph} (hg : c.finish = .ok g) : g.Structured top := by
  unfold Construction.finish at hg
  split at hg
  · cases hg
    exact withReferences h.structured c.uses
  · cases hg

end Sound

/-- A stream is accepted if its first event is, and then the others are. -/
theorem pushAll_cons_eq_ok {c c' : Construction} {e : Event} {events : List Event} :
    c.pushAll (e :: events) = .ok c' ↔ ∃ d, c.push e = .ok d ∧ d.pushAll events = .ok c' := by
  rw [pushAll, List.foldlM_cons]
  cases c.push e with
  | error flaw =>
    constructor
    · intro h
      cases h
    · rintro ⟨d, hd, -⟩
      cases hd
  | ok d =>
    refine ⟨fun h => ⟨d, rfl, h⟩, ?_⟩
    rintro ⟨d', hd', h⟩
    cases hd'
    exact h

theorem pushAll_append {c d : Construction} {es es' : List Event} (h : c.pushAll es = .ok d) :
    c.pushAll (es ++ es') = d.pushAll es' := by
  rw [pushAll, List.foldlM_append, ← pushAll, h]
  rfl

/-- A stream is accepted if its first part is, and then the rest is. -/
theorem pushAll_append_eq_ok {c c' : Construction} {es es' : List Event} :
    c.pushAll (es ++ es') = .ok c' ↔ ∃ d, c.pushAll es = .ok d ∧ d.pushAll es' = .ok c' := by
  cases hes : c.pushAll es with
  | error flaw =>
    rw [pushAll, List.foldlM_append, ← pushAll, hes]
    constructor
    · intro h
      cases h
    · rintro ⟨d, hd, -⟩
      cases hd
  | ok d =>
    rw [pushAll_append hes]
    refine ⟨fun h => ⟨d, rfl, h⟩, ?_⟩
    rintro ⟨d', hd', h⟩
    cases hd'
    exact h

/-- An accepted stream leads where offering its events leads. -/
theorem offerAll_eq_of_pushAll {c c' : Construction} {events : List Event}
    (h : c.pushAll events = .ok c') : c.offerAll events = c' := by
  induction events generalizing c with
  | nil => cases h; rfl
  | cons e events ih =>
    obtain ⟨d, hpush, hrest⟩ := pushAll_cons_eq_ok.mp h
    have hoffer : c.offer e = d := by rw [offer, hpush]
    rw [offerAll, List.foldl_cons, hoffer]
    exact ih hrest

end Construction

theorem Graph.ofEvents_eq_ok {top : Span} {symbols : SymbolTable} {events : List Event} {g : Graph}
    (h : Graph.ofEvents top symbols events = .ok g) :
    ∃ c, (Construction.start top symbols).pushAll events = .ok c ∧ c.finish = .ok g := by
  unfold Graph.ofEvents at h
  cases hc : (Construction.start top symbols).pushAll events with
  | error flaw => rw [hc] at h; cases h
  | ok c => rw [hc] at h; exact ⟨c, rfl, h⟩

/-- The graph of an accepted stream is structured. -/
theorem Graph.structured_ofEvents {top : Span} {symbols : SymbolTable} {events : List Event}
    {g : Graph} (h : Graph.ofEvents top symbols events = .ok g) : g.Structured top := by
  obtain ⟨c, hc, hg⟩ := Graph.ofEvents_eq_ok h
  have hsound := (Construction.sound_start top symbols).offerAll events
  rw [Construction.offerAll_eq_of_pushAll hc] at hsound
  exact hsound.finish hg

/-! ### Where scopes come from -/

/-- Every scope but the root has a span that satisfies `P`. -/
def Graph.InnerScopes (P : Span → Prop) (g : Graph) : Prop :=
  ∀ i s, i ≠ Graph.root → g.node? i = some (.scope s) → P s

namespace Graph.InnerScopes

variable {P : Span → Prop} {g : Graph}

theorem ofRoot (top : Span) : (Graph.ofRoot top).InnerScopes P := by
  intro i s hi hs
  have hlt := Graph.node?_lt hs
  simp only [Graph.order, Graph.ofRoot, List.length_singleton, Graph.root] at hlt hi
  omega

theorem addInside (h : g.InnerScopes P) {n : Node} {kind : Relation} {p : Nat}
    (hn : ∀ s, n = .scope s → P s) : (g.addInside n kind p).InnerScopes P := by
  intro i s hi hs
  rw [Graph.node?_addInside] at hs
  split at hs
  · exact hn s (Option.some.inj hs)
  · exact h i s hi hs

theorem withReferences (h : g.InnerScopes P) (rs : List PendingReference) :
    (rs.foldl (fun g r => g.withReference r.span r.name r.symbol) g).InnerScopes P := by
  induction rs generalizing g with
  | nil => exact h
  | cons r rs ih =>
    refine ih ?_
    intro i s hi hs
    rw [Graph.node?_withReference] at hs
    split at hs
    · cases hs
    · exact h i s hi hs

theorem push {c c' : Construction} {e : Event} (h : c.graph.InnerScopes P)
    (he : ∀ s, e = .scopeStart s → P s) (hpush : c.push e = .ok c') : c'.graph.InnerScopes P := by
  cases e with
  | scopeStart span =>
    cases hpush
    unfold Construction.openScope
    simp only
    split
    · exact h
    · split
      · exact h
      · refine h.addInside ?_
        intro s hs
        cases hs
        exact he span rfl
  | scopeEnd span =>
    rw [Construction.push] at hpush
    split at hpush <;> cases hpush
    exact h
  | definition span text scoping symbol =>
    rw [Construction.push] at hpush
    split at hpush <;> cases hpush
    · exact h
    · exact h.addInside (by simp)
  | imported span text =>
    rw [Construction.push] at hpush
    split at hpush <;> cases hpush
    · exact h
    · exact h.addInside (by simp)
  | reference span text symbol =>
    cases hpush
    exact h

theorem offerAll {c : Construction} {events : List Event} (h : c.graph.InnerScopes P)
    (he : ∀ s, .scopeStart s ∈ events → P s) : (c.offerAll events).graph.InnerScopes P := by
  induction events generalizing c with
  | nil => exact h
  | cons e events ih =>
    refine ih ?_ fun s hs => he s (List.mem_cons_of_mem _ hs)
    rw [Construction.offer]
    cases hpush : c.push e with
    | error flaw => exact h
    | ok c' => exact h.push (fun s hs => he s (by simp [hs])) hpush

/-- What holds of every span at which a scope starts holds of every scope. -/
theorem ofEvents {top : Span} {symbols : SymbolTable} {events : List Event}
    (hg : Graph.ofEvents top symbols events = .ok g) (he : ∀ s, .scopeStart s ∈ events → P s) :
    g.InnerScopes P := by
  obtain ⟨c, hc, hfinish⟩ := Graph.ofEvents_eq_ok hg
  have hscopes : ((Construction.start top symbols).offerAll events).graph.InnerScopes P :=
    (InnerScopes.ofRoot top).offerAll he
  rw [Construction.offerAll_eq_of_pushAll hc] at hscopes
  unfold Construction.finish at hfinish
  split at hfinish <;> cases hfinish
  exact hscopes.withReferences c.uses

end Graph.InnerScopes

/-! ### The invariant of all runs -/

/-- **Every graph met on the way is structured**: the one under construction after
any events, of which some may have been refused, and the finished one after any
calls that record bindings. -/
theorem structured_throughout (top : Span) (symbols : SymbolTable) (events : List Event) :
    ((Construction.start top symbols).offerAll events).graph.Structured top ∧
      ∀ g, ((Construction.start top symbols).offerAll events).finish = .ok g →
        ∀ calls, (g.performAll calls).Structured top := by
  have hsound := (Construction.sound_start top symbols).offerAll events
  refine ⟨hsound.structured, ?_⟩
  intro g hg calls
  exact (Graph.extends_performAll calls g).structured (hsound.finish hg)

/-- A stream with a refused end, a scope opened twice and a hoisted definition,
whose reference is then bound to the root before everything is resolved. -/
theorem structured_throughout_reopened :
    let c := (Construction.start ⟨⟨0, 0, 0⟩, ⟨9, 0, 9⟩⟩ ⟨[]⟩).offerAll
      [.scopeEnd .zero, .scopeStart ⟨⟨2, 0, 2⟩, ⟨8, 0, 8⟩⟩,
        .definition ⟨⟨3, 0, 3⟩, ⟨4, 0, 4⟩⟩ "f" .hoisted none, .scopeStart ⟨⟨2, 0, 2⟩, ⟨8, 0, 8⟩⟩,
        .reference ⟨⟨5, 0, 5⟩, ⟨6, 0, 6⟩⟩ "f" none, .scopeEnd .zero, .scopeEnd .zero]
    ∃ g, c.finish = .ok g ∧
      (g.performAll [.bind 3 (.definition 0), .resolve]).Structured ⟨⟨0, 0, 0⟩, ⟨9, 0, 9⟩⟩ := by
  intro c
  have hc : c.finish = .ok _ := rfl
  exact ⟨_, hc, (structured_throughout _ _ _).2 _ hc _⟩

end NameBinding
