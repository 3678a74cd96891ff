import NameBinding.Proofs.Totality

/-!
# Bindings are no part of the structure

Bindings are edges of their own two kinds, and whatever asks for the tree of scopes or
for declarations asks for edges of other kinds.  So a graph with more bindings, even
ones that lead from a scope or to a reference, answers all these questions as before,
and what its references denote has not changed either.

## Main definitions

* `Graph.SameAnswers` — two graphs answer all questions about the structure alike.

## Main results

* `Extends.incoming_eq`, `Extends.outgoing_eq` — the edges that attach nodes stay.
* `Extends.smallestScope_eq`, `Extends.bindingFor_eq`, `Extends.meaning_eq` — **the
  innermost scope around a span and what references denote stay the same.**
* `resolve_idempotent` — **resolving twice is resolving once.**
* `sameAnswers_performAll` — **calls that record bindings only append bindings, and no
  question about the structure is answered differently after them.**
-/

namespace NameBinding
namespace Graph

namespace Extends

variable {g g' : Graph}

/-! ### Nodes and edges -/

theorem node?_eq (h : g.Extends g') (i : Nat) : g'.node? i = g.node? i := by
  rw [node?, h.1, ← node?]

theorem order_eq (h : g.Extends g') : g'.order = g.order := by
  rw [order, h.1, ← order]

theorem spanOf_eq (h : g.Extends g') (i : Nat) : g'.spanOf i = g.spanOf i := by
  rw [spanOf, h.node?_eq, ← spanOf]

/-- A search among the edges that passes over bindings finds what it found before. -/
private theorem filter_edges_eq (h : g.Extends g') {p : Edge → Bool}
    (hp : ∀ e, p e = true → e.kind.binds = false) : g'.edges.filter p = g.edges.filter p := by
  obtain ⟨-, es, hes, hbinds⟩ := h
  have hnone : es.filter p = [] := by
    rw [List.filter_eq_nil_iff]
    intro e he hpe
    have hno := hp e hpe
    rw [hbinds e he] at hno
    cases hno
  rw [hes, List.filter_append, hnone, List.append_nil]

theorem incoming_eq (h : g.Extends g') {p : Relation → Bool}
    (hp : ∀ kind, p kind = true → kind.binds = false) (i : Nat) :
    g'.incoming i p = g.incoming i p := by
  have hedges := h.filter_edges_eq (p := fun e => e.target == i && p e.kind) fun e he =>
    hp e.kind (Bool.and_eq_true_iff.mp he).2
  rw [incoming, hedges, ← incoming]

theorem outgoing_eq (h : g.Extends g') {p : Relation → Bool}
    (hp : ∀ kind, p kind = true → kind.binds = false) (i : Nat) :
    g'.outgoing i p = g.outgoing i p := by
  have hedges := h.filter_edges_eq (p := fun e => e.source == i && p e.kind) fun e he =>
    hp e.kind (Bool.and_eq_true_iff.mp he).2
  rw [outgoing, hedges, ← outgoing]

/-! ### Scopes -/

theorem parent_eq (h : g.Extends g') (scope : Nat) : g'.parent scope = g.parent scope := by
  simp only [parent, h.node?_eq, h.outgoing_eq (Relation.binds_of_beq (k := .scopeToScope) rfl)]

theorem closestChild?_eq (h : g.Extends g') (scope : Nat) (span : Span) :
    g'.closestChild? scope span = g.closestChild? scope span := by
  simp only [closestChild?, childrenAround, h.spanOf_eq,
    h.incoming_eq (Relation.binds_of_beq (k := .scopeToScope) rfl)]

theorem descend_eq (h : g.Extends g') (span : Span) :
    ∀ n scope, g'.descend span n scope = g.descend span n scope := by
  intro n
  induction n with
  | zero => intro scope; rfl
  | succ n ih =>
    intro scope
    simp only [descend, h.closestChild?_eq, ih]

theorem smallestScope_eq (h : g.Extends g') (span : Span) :
    g'.smallestScope span = g.smallestScope span := by
  rw [smallestScope, h.order_eq, h.descend_eq, ← smallestScope]

/-! ### References -/

theorem eligibleIn_eq (h : g.Extends g') (scope : Nat) (name : String)
    (symbol : Option SymbolIndex) :
    g'.eligibleIn scope name symbol = g.eligibleIn scope name symbol := by
  have hcould : g'.couldMean scope name symbol = g.couldMean scope name symbol := by
    funext i
    simp only [couldMean, h.node?_eq]
  rw [eligibleIn, hcould, bindingsIn, h.incoming_eq Relation.binds_of_declares, ← bindingsIn,
    ← eligibleIn]

theorem choose?_eq (h : g.Extends g') (start : Nat) (ws : List Nat) :
    g'.choose? start ws = g.choose? start ws := by
  simp only [choose?, startOf, h.spanOf_eq]

theorem lookup_eq (h : g.Extends g') (span : Span) (name : String)
    (symbol : Option SymbolIndex) :
    ∀ n scope, g'.lookup span name symbol n scope = g.lookup span name symbol n scope := by
  intro n
  induction n with
  | zero => intro scope; rfl
  | succ n ih =>
    intro scope
    simp only [lookup, h.eligibleIn_eq, h.choose?_eq, h.parent_eq, bindingTo, h.node?_eq, ih]

theorem bindingFor_eq (h : g.Extends g') (i : Nat) : g'.bindingFor i = g.bindingFor i := by
  simp only [bindingFor, h.node?_eq, h.smallestScope_eq, h.lookup_eq, h.order_eq]

theorem meaning_eq (h : g.Extends g') : g'.meaning = g.meaning := by
  funext i
  rw [meaning, h.bindingFor_eq, ← meaning]

theorem references_eq (h : g.Extends g') : g'.references = g.references := by
  simp only [references, positions, h.order_eq, h.node?_eq]

end Extends

/-! ### Resolving again -/

/-- References that are bound already are not bound again. -/
theorem bindAll_eq_self : ∀ (bs : List BoundReference) (g : Graph),
    (∀ b ∈ bs, (g.boundTo? b.reference).isSome = true) →
    g.bindAll bs = (g, .ok g.bindingCounts) := by
  intro bs
  induction bs with
  | nil => intro g _; rfl
  | cons b bs ih =>
    intro g hbound
    have hskip : g.bindReference b.reference b.binding = .ok (g, false) := by
      rw [bindReference, if_pos (hbound b (List.mem_cons_self ..))]
    rw [bindAll, hskip]
    exact ih g fun b' hb' => hbound b' (List.mem_cons_of_mem _ hb')

/-- Only references denote something. -/
theorem mem_references_of_bindingFor {g : Graph} {i : Nat} {r : Option Binding}
    (h : g.bindingFor i = .ok r) : i ∈ g.references := by
  unfold bindingFor at h
  split at h
  · next hn => exact mem_references.mpr ⟨_, hn, rfl⟩
  · cases h

/-- What is resolved once stays so. -/
theorem Structured.resolve_again {top : Span} {g : Graph} (h : g.Structured top)
    (ho : g.ScopesOrdered) :
    ∃ g' counts, g.resolve = .ok (g', counts) ∧ g'.resolve = .ok (g', counts) ∧
      g.Extends g' ∧ ∀ i b, g.bindingFor i = .ok (some b) → (g'.boundTo? i).isSome = true := by
  obtain ⟨g', -, hresolve, hbound⟩ := h.resolve_eq_ok ho
  have hext := extends_resolve hresolve
  refine ⟨g', g'.bindingCounts, hresolve, ?_, hext, ?_⟩
  · -- the second time the same bindings are found, and all of them are there
    obtain ⟨g'', hg'', hresolve', -⟩ := (hext.structured h).resolve_eq_ok (hext.innerScopes ho)
    rw [hext.meaning_eq, hext.references_eq, bindAll_eq_self _ g' hbound] at hg''
    rw [hg''] at hresolve'
    exact hresolve'
  · intro i b hb
    have hm : g.meaning i = some b := by rw [meaning, hb]; rfl
    exact hbound ⟨i, b⟩ (mem_meanings.mpr ⟨mem_references_of_bindingFor hb, hm⟩)

/-- **Resolving twice is resolving once.**  Take a graph built from events whose scopes
are ordered, in which references, or other nodes, have been bound by any calls.  It can
be resolved, and then every reference that denotes something is bound.  Resolving it
again changes no edge and counts the same outcome. -/
theorem resolve_idempotent {top : Span} {symbols : SymbolTable} {events : List Event} {g : Graph}
    (hg : Graph.ofEvents top symbols events = .ok g)
    (hordered : ∀ s, .scopeStart s ∈ events → s.start.byte ≤ s.stop.byte)
    (calls : List BindingCall) :
    ∃ g' counts, (g.performAll calls).resolve = .ok (g', counts) ∧
      g'.resolve = .ok (g', counts) ∧
      ∀ i b, (g.performAll calls).bindingFor i = .ok (some b) →
        (g'.boundTo? i).isSome = true := by
  have hext := extends_performAll calls g
  have hscopes : g.ScopesOrdered := InnerScopes.ofEvents hg hordered
  obtain ⟨g', counts, hresolve, hagain, -, hbound⟩ :=
    (hext.structured (structured_ofEvents hg)).resolve_again (hext.innerScopes hscopes)
  exact ⟨g', counts, hresolve, hagain, hbound⟩

/-- One of two references is bound by hand to the other one, and stays so. -/
theorem resolve_idempotent_prebound :
    let span (a b : Nat) : Span := ⟨⟨a, 0, a⟩, ⟨b, 0, b⟩⟩
    let events : List Event :=
      [.scopeStart (span 2 8), .definition (span 3 4) "f" .hoisted none,
        .reference (span 5 6) "f" none, .reference (span 6 7) "f" none, .scopeEnd .zero]
    let g : Graph :=
      ⟨[.scope (span 0 9), .scope (span 2 8), .definition (span 3 4) "f" none,
          .reference (span 5 6) "f" none, .reference (span 6 7) "f" none],
        [⟨1, 0, .scopeToScope⟩, ⟨2, 0, .definitionToScope⟩]⟩
    let g' : Graph :=
      { g with edges := g.edges ++ [⟨3, 4, .referenceToDefinition⟩, ⟨4, 2, .referenceToDefinition⟩] }
    Graph.ofEvents (span 0 9) ⟨[]⟩ events = .ok g ∧
      (∀ s, .scopeStart s ∈ events → s.start.byte ≤ s.stop.byte) ∧
      (g.performAll [.bind 3 (.definition 4)]).resolve = .ok (g', ⟨2, 1, 0, 1⟩) ∧
      g'.resolve = .ok (g', ⟨2, 1, 0, 1⟩) := by
  intro span events g g'
  have hordered : ∀ s, .scopeStart s ∈ events → s.start.byte ≤ s.stop.byte := by
    intro s hs
    simp only [events, List.mem_cons, Event.scopeStart.injEq, reduceCtorEq, List.not_mem_nil,
      or_false] at hs
    simp [hs, span]
  have hg : Graph.ofEvents (span 0 9) ⟨[]⟩ events = .ok g := rfl
  have hfirst : (g.performAll [.bind 3 (.definition 4)]).resolve = .ok (g', ⟨2, 1, 0, 1⟩) := by
    with_unfolding_all rfl
  obtain ⟨_, _, hresolve, hagain, -⟩ := resolve_idempotent hg hordered [.bind 3 (.definition 4)]
  rw [hfirst] at hresolve
  cases hresolve
  exact ⟨hg, hordered, hfirst, hagain⟩

/-! ### Questions about the structure -/

/-- Two graphs answer all questions about the structure alike: about the tree of scopes,
about what is declared where, about the place of nodes and bytes, and about what
references denote.  Those that could break a bound do not. -/
structure SameAnswers (g g' : Graph) : Prop where
  parent : ∀ i, g'.parent i = g.parent i
  outerScope? : ∀ i, g'.outerScope? i = g.outerScope? i
  scopesIn : ∀ i, g'.scopesIn i = g.scopesIn i
  definitionsIn : ∀ i, g'.definitionsIn i = g.definitionsIn i
  importsIn : ∀ i, g'.importsIn i = g.importsIn i
  homeScope : ∀ i, ∃ home, g.homeScope i = .ok home ∧ g'.homeScope i = .ok home
  ancestry : ∀ i, ∃ chain, g.ancestry i = .ok chain ∧ g'.ancestry i = .ok chain
  smallestScope : ∀ span, ∃ scope, g.smallestScope span = .ok scope ∧
    g'.smallestScope span = .ok scope
  nameAt? : ∀ byte, g'.nameAt? byte = g.nameAt? byte
  bindingFor : ∀ i, g'.bindingFor i = g.bindingFor i
  allBindings : ∃ bindings, g.allBindings = .ok bindings ∧ g'.allBindings = .ok bindings

namespace Extends

variable {g g' : Graph}

theorem outerScope?_eq (h : g.Extends g') (scope : Nat) :
    g'.outerScope? scope = g.outerScope? scope := by
  rw [outerScope?, h.parent_eq, ← outerScope?]

/-- What is attached to a scope by one kind of edge is listed as before. -/
theorem sortBySpan_incoming_eq (h : g.Extends g') {kind : Relation} (hkind : kind.binds = false)
    (scope : Nat) :
    g'.sortBySpan (g'.incoming scope (· == kind)) = g.sortBySpan (g.incoming scope (· == kind)) := by
  have hprecedes : g'.precedes = g.precedes := by
    funext i j
    simp only [precedes, h.spanOf_eq]
  rw [h.incoming_eq (Relation.binds_of_beq hkind), sortBySpan, hprecedes, ← sortBySpan]

theorem homeScope_eq (h : g.Extends g') (i : Nat) : g'.homeScope i = g.homeScope i := by
  simp only [homeScope, h.node?_eq, h.smallestScope_eq,
    h.outgoing_eq (Relation.binds_of_beq (k := .definitionToScope) rfl),
    h.outgoing_eq (Relation.binds_of_beq (k := .importToScope) rfl)]

theorem chainFrom_eq (h : g.Extends g') :
    ∀ n seen scope, g'.chainFrom n seen scope = g.chainFrom n seen scope := by
  intro n
  induction n with
  | zero => intro seen scope; rfl
  | succ n ih =>
    intro seen scope
    cases scope with
    | none => rfl
    | some scope => simp only [chainFrom, h.outerScope?_eq, ih]

theorem ancestry_eq (h : g.Extends g') (i : Nat) : g'.ancestry i = g.ancestry i := by
  simp only [ancestry, h.homeScope_eq, h.chainFrom_eq, h.order_eq]

theorem nameAt?_eq (h : g.Extends g') (byte : Nat) : g'.nameAt? byte = g.nameAt? byte := by
  simp only [nameAt?, positions, h.order_eq, h.node?_eq, h.spanOf_eq]

theorem allBindings_eq (h : g.Extends g') : g'.allBindings = g.allBindings := by
  have heach : ∀ is, g'.resolveEach is = g.resolveEach is := by
    intro is
    induction is with
    | nil => rfl
    | cons i is ih => simp only [resolveEach, h.bindingFor_eq, ih]
  rw [allBindings, h.references_eq, heach, ← allBindings]

end Extends

/-- On a structured graph with ordered scopes every node has its place. -/
theorem Structured.homeScope_eq_ok {top : Span} {g : Graph} (h : g.Structured top)
    (ho : g.ScopesOrdered) (i : Nat) : ∃ home, g.homeScope i = .ok home := by
  unfold homeScope
  cases g.node? i with
  | none => exact ⟨none, rfl⟩
  | some n =>
    cases n with
    | scope => exact ⟨some i, rfl⟩
    | definition | imported => exact ⟨_, rfl⟩
    | reference span name symbol =>
      obtain ⟨scope, hscope, -⟩ := h.smallestScope_eq_ok ho span
      refine ⟨some scope, ?_⟩
      simp only [hscope]
      rfl

/-- **Bindings are no part of the structure.** -/
theorem Extends.sameAnswers {top : Span} {g g' : Graph} (h : g.Extends g')
    (hg : g.Structured top) (ho : g.ScopesOrdered) : g.SameAnswers g' where
  parent := h.parent_eq
  outerScope? := h.outerScope?_eq
  scopesIn := h.sortBySpan_incoming_eq rfl
  definitionsIn := h.sortBySpan_incoming_eq rfl
  importsIn := h.sortBySpan_incoming_eq rfl
  homeScope := by
    intro i
    obtain ⟨home, hhome⟩ := hg.homeScope_eq_ok ho i
    exact ⟨home, hhome, (h.homeScope_eq i).trans hhome⟩
  ancestry := by
    intro i
    obtain ⟨home, hhome⟩ := hg.homeScope_eq_ok ho i
    have hchain : g.ancestry i = .ok (g.chainFrom (g.order + 1) [] home) := by
      rw [Graph.ancestry, hhome]
      rfl
    exact ⟨_, hchain, (h.ancestry_eq i).trans hchain⟩
  smallestScope := by
    intro span
    obtain ⟨scope, hscope, -⟩ := hg.smallestScope_eq_ok ho span
    exact ⟨scope, hscope, (h.smallestScope_eq span).trans hscope⟩
  nameAt? := h.nameAt?_eq
  bindingFor := h.bindingFor_eq
  allBindings := by
    have hall := (hg.allBindings_eq_ok ho).1
    exact ⟨_, hall, h.allBindings_eq.trans hall⟩

/-- **Calls that record bindings leave the structure alone.**  Take a graph built from
events whose scopes are ordered, and any calls that bind nodes to nodes, whichever they
are.  The nodes stay, the edges stay and are followed by bindings only, and all
questions about the structure are answered as before, also what references denote. -/
theorem sameAnswers_performAll {top : Span} {symbols : SymbolTable} {events : List Event}
    {g : Graph} (hg : Graph.ofEvents top symbols events = .ok g)
    (hordered : ∀ s, .scopeStart s ∈ events → s.start.byte ≤ s.stop.byte)
    (calls : List BindingCall) :
    (g.performAll calls).nodes = g.nodes ∧
      (∃ es, (g.performAll calls).edges = g.edges ++ es ∧
        ∀ e ∈ es, e.kind = .referenceToDefinition ∨ e.kind = .referenceToImport) ∧
      g.SameAnswers (g.performAll calls) := by
  have hext := extends_performAll calls g
  have hsame := hext.sameAnswers (structured_ofEvents hg) (InnerScopes.ofEvents hg hordered)
  obtain ⟨hnodes, es, hes, hbinds⟩ := hext
  refine ⟨hnodes, ⟨es, hes, fun e he => ?_⟩, hsame⟩
  exact Relation.binds_iff.mp (hbinds e he)

/-- A scope is bound to the root, a definition to itself and the root to a reference,
and then everything is resolved: four bindings more, and nothing else is different. -/
theorem sameAnswers_performAll_crossed :
    let span (a b : Nat) : Span := ⟨⟨a, 0, a⟩, ⟨b, 0, b⟩⟩
    let events : List Event :=
      [.scopeStart (span 2 8), .definition (span 3 4) "f" .hoisted none,
        .reference (span 5 6) "f" none, .scopeEnd .zero]
    let g : Graph :=
      ⟨[.scope (span 0 9), .scope (span 2 8), .definition (span 3 4) "f" none,
          .reference (span 5 6) "f" none],
        [⟨1, 0, .scopeToScope⟩, ⟨2, 0, .definitionToScope⟩]⟩
    let calls : List BindingCall :=
      [.bind 1 (.definition 0), .bindAll [⟨2, .imported 2⟩, ⟨0, .definition 3⟩], .resolve]
    Graph.ofEvents (span 0 9) ⟨[]⟩ events = .ok g ∧
      (∀ s, .scopeStart s ∈ events → s.start.byte ≤ s.stop.byte) ∧
      (g.performAll calls).edges = g.edges ++
        [⟨1, 0, .referenceToDefinition⟩, ⟨2, 2, .referenceToImport⟩,
          ⟨0, 3, .referenceToDefinition⟩, ⟨3, 2, .referenceToDefinition⟩] ∧
      g.SameAnswers (g.performAll calls) := by
  intro span events g calls
  have hordered : ∀ s, .scopeStart s ∈ events → s.start.byte ≤ s.stop.byte := by
    intro s hs
    simp only [events, List.mem_cons, Event.scopeStart.injEq, reduceCtorEq, List.not_mem_nil,
      or_false] at hs
    simp [hs, span]
  have hg : Graph.ofEvents (span 0 9) ⟨[]⟩ events = .ok g := rfl
  have hedges : (g.performAll calls).edges = g.edges ++
      [⟨1, 0, .referenceToDefinition⟩, ⟨2, 2, .referenceToImport⟩,
        ⟨0, 3, .referenceToDefinition⟩, ⟨3, 2, .referenceToDefinition⟩] := by
    decide +kernel
  exact ⟨hg, hordered, hedges, (sameAnswers_performAll hg hordered calls).2.2⟩

end Graph
end NameBinding
