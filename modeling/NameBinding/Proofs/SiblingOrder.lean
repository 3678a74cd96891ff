import Mathlib.Data.List.Pairwise
import NameBinding.Proofs.Outlines

/-!
# The order of siblings

A stream is the written form of a forest: declarations and references, and blocks of
them.  Shuffling the items of the forest, or of any block in it, renumbers the nodes of
the graph but states the same facts.  If the spans of the forest leave no ties, the
outline of the resolved graph stays the same to the letter.

## Main definitions

* `Item`, `Item.eventsOf` — forests and their streams.
* `Item.Shuffled` — the items are permuted at some levels.
* `Item.Unambiguous` — the spans of a forest leave no ties.

## Main results

* `Shuffled.perm_facts` — a shuffled forest states the same facts.
* `Graph.presents_of_resolve` — a resolved graph presents its facts and the uses that
  they determine.
* `Item.render_shuffled` — **what is rendered does not depend on the order of siblings.**
-/

namespace NameBinding

/-! ### Forests -/

/-- An item of a forest. -/
inductive Item where
  /-- A definition, an import or a reference. -/
  | single (event : Event) (he : event.isBracket = false)
  /-- A scope and the items in it. -/
  | block (span : Span) (items : List Item)

namespace Item

mutual

/-- The stream of an item. -/
def events : Item → List Event
  | .single event _ => [event]
  | .block span items => .scopeStart span :: (eventsOf items ++ [.scopeEnd span])

/-- The stream of a forest. -/
def eventsOf : List Item → List Event
  | [] => []
  | item :: items => item.events ++ eventsOf items

end

/-- The second forest is the first one with the items permuted at any levels. -/
inductive Shuffled : List Item → List Item → Prop
  | nil : Shuffled [] []
  | cons (item : Item) {items items' : List Item} (h : Shuffled items items') :
      Shuffled (item :: items) (item :: items')
  | block (span : Span) {inner inner' items items' : List Item} (hinner : Shuffled inner inner')
      (h : Shuffled items items') :
      Shuffled (.block span inner :: items) (.block span inner' :: items')
  | swap (first second : Item) (items : List Item) :
      Shuffled (second :: first :: items) (first :: second :: items)
  | trans {items items' items'' : List Item} (h : Shuffled items items')
      (h' : Shuffled items' items'') : Shuffled items items''

open Event (Bracketed)

mutual

theorem bracketed_events : ∀ item : Item, Bracketed item.events
  | .single _ he => .single he .nil
  | .block _ items => .scope (bracketed_eventsOf items) .nil

theorem bracketed_eventsOf : ∀ items : List Item, Bracketed (eventsOf items)
  | [] => .nil
  | item :: items => (bracketed_events item).append (bracketed_eventsOf items)

end

variable {top : Span} {symbols : SymbolTable}

theorem facts_cons (opened : List Address) (item : Item) (items : List Item) :
    Event.facts top symbols opened (eventsOf (item :: items)) =
      Event.facts top symbols opened item.events ++
        Event.facts top symbols opened (eventsOf items) :=
  Event.facts_append (bracketed_events item) opened (eventsOf items)

/-- A block states that its scope is there, and what its items state inside it. -/
theorem facts_block (opened : List Address) (span : Span) (items : List Item) :
    Event.facts top symbols opened (block span items).events =
      .scope (Address.entered top opened span) ::
        Event.facts top symbols (Address.entered top opened span :: opened) (eventsOf items) := by
  rw [events, Event.facts, Event.openedAfter, Event.facts_append (bracketed_eventsOf items)]
  simp [Event.facts, Event.fact?]

namespace Shuffled

variable {items items' : List Item}

theorem perm_events (h : Shuffled items items') : (eventsOf items).Perm (eventsOf items') := by
  induction h with
  | nil => exact .nil
  | cons item _ ih => exact ih.append_left item.events
  | block span _ _ ihinner ih => exact ((ihinner.append_right _).cons _).append ih
  | swap first second items =>
    rw [eventsOf, eventsOf, eventsOf, eventsOf]
    exact List.perm_append_comm_assoc ..
  | trans _ _ ih ih' => exact ih.trans ih'

/-- **A shuffled forest states the same facts**, whatever scopes are open. -/
theorem perm_facts (h : Shuffled items items') : ∀ opened : List Address,
    (Event.facts top symbols opened (eventsOf items)).Perm
      (Event.facts top symbols opened (eventsOf items')) := by
  induction h with
  | nil => intro opened; exact .nil
  | cons item _ ih =>
    intro opened
    rw [facts_cons, facts_cons]
    exact (ih opened).append_left _
  | block span _ _ ihinner ih =>
    intro opened
    rw [facts_cons, facts_cons, facts_block, facts_block]
    exact ((ihinner _).cons _).append (ih opened)
  | swap first second items =>
    intro opened
    rw [facts_cons, facts_cons, facts_cons, facts_cons]
    exact List.perm_append_comm_assoc ..
  | trans _ _ ih ih' =>
    intro opened
    exact (ih opened).trans (ih' opened)

end Shuffled
end Item

/-! ### Forests without ties -/

namespace Item

/-- The spans of a forest leave no ties: all of them are spans of the text `source`,
scopes are nested or disjoint, no reference is empty, no two declarations have one span,
and no two declarations of one name start together. -/
structure Unambiguous (source : String) (symbols : SymbolTable) (items : List Item) : Prop where
  ofSource : ∀ e ∈ eventsOf items, ∃ a b, Span.ofBytes source a b = .ok e.span
  nested : ∀ s t, .scopeStart s ∈ eventsOf items → .scopeStart t ∈ eventsOf items →
    s.contains t = true ∨ t.contains s = true ∨
      s.stop.byte ≤ t.start.byte ∨ t.stop.byte ≤ s.start.byte
  nonempty : ∀ span text symbol, .reference span text symbol ∈ eventsOf items →
    span.start.byte < span.stop.byte
  distinct : ((eventsOf items).filterMap (Event.declaration? symbols)).Pairwise
    fun m n => m.span ≠ n.span
  starts : ((eventsOf items).filterMap (Event.declaration? symbols)).Pairwise
    fun m n => m.name? = n.name? → m.span.start.byte ≠ n.span.start.byte

variable {source : String} {symbols : SymbolTable} {items : List Item}

theorem Unambiguous.untied (h : Unambiguous source symbols items) (top : Span) :
    Fact.Untied (Event.facts top symbols [] (eventsOf items)) where
  ordered s a hs := by
    obtain ⟨_, _, hok⟩ := h.ofSource _ (Event.scopeStart_of_mem_facts hs)
    exact (Span.ofBytes_eq_ok hok).2
  nested s a t b hs ht :=
    h.nested s t (Event.scopeStart_of_mem_facts hs) (Event.scopeStart_of_mem_facts ht)
  eq_of_bytes s a t b hs ht := by
    obtain ⟨_, _, hok⟩ := h.ofSource _ (Event.scopeStart_of_mem_facts hs)
    obtain ⟨_, _, hok'⟩ := h.ofSource _ (Event.scopeStart_of_mem_facts ht)
    exact Span.ofBytes_inj hok hok'
  eq_of_start a m b n hm hn hname hstart := by
    have hdeclared : ∀ {a n}, .declaration a n ∈ Event.facts top symbols [] (eventsOf items) →
        n ∈ (eventsOf items).filterMap (Event.declaration? symbols) := by
      intro a n hn
      have hmem : n ∈ (Event.facts top symbols [] (eventsOf items)).filterMap Fact.node? :=
        List.mem_filterMap.mpr ⟨_, hn, rfl⟩
      rwa [Event.filterMap_node?_facts] at hmem
    refine Decidable.byContradiction fun hne => ?_
    have hsymm : Std.Symm fun m n : Node =>
        m.name? = n.name? → m.span.start.byte ≠ n.span.start.byte :=
      ⟨fun m n hmn hname hstart => hmn hname.symm hstart.symm⟩
    exact h.starts.forall (hdeclared hm) (hdeclared hn) hne hname hstart

end Item

/-! ### Uses -/

open Classical in
/-- The spans of those references that mean a node. -/
noncomputable def Fact.usesAmong (facts : List Fact) (references : List Node) (n : Node) :
    List Span :=
  (references.filter fun r => Fact.Means facts r n).map Node.span

theorem Fact.usesAmong_perm (facts : List Fact) {rs rs' : List Node} (h : rs.Perm rs')
    (n : Node) : (usesAmong facts rs n).Perm (usesAmong facts rs' n) :=
  (h.filter _).map _

namespace Graph

/-- The spans of the nodes of some kind that pass a test. -/
theorem map_spanOf_positions (g : Graph) (p q : Node → Bool) :
    ((g.positions p).filter fun i => (g.node? i).any q).map g.spanOf =
      ((g.nodes.filter p).filter q).map Node.span := by
  have hlt : ∀ i ∈ (g.positions p).filter fun i => (g.node? i).any q, i < g.order := by
    intro i hi
    exact List.mem_range.mp (List.mem_filter.mp (List.mem_filter.mp hi).1).1
  rw [← filterMap_node? hlt, filterMap_node?_filter, filterMap_positions]

variable {top : Span} {symbols : SymbolTable} {events : List Event} {facts : List Fact}
  {g r : Graph}

theorem Realizes.of_extends (h : g.Realizes top facts) (hext : g.Extends r) :
    r.Realizes top facts := by
  refine h.of_attached (hext.structured h.structured) ?_ fun i _ => hext.node?_eq i
  obtain ⟨-, es, hes, hbinds⟩ := hext
  intro e he
  rw [hes, List.mem_append]
  refine ⟨fun hmem => hmem.resolve_right fun hnew => ?_, Or.inl⟩
  rw [hbinds e hnew] at he
  cases he

/-- No two declarations of a built graph have one span. -/
theorem distinct_ofEvents (hg : Graph.ofEvents top symbols events = .ok g) {w w' : Nat}
    {n n' : Node} (hw : g.node? w = some n) (hw' : g.node? w' = some n')
    (hn : n.declaresName = true) (hn' : n'.declaresName = true) (hspan : n.span = n'.span) :
    w = w' := by
  have hpair := Node.pairwise_firsts (events.filterMap (Event.declaration? symbols)) []
  rw [← declarations_ofEvents hg, List.pairwise_filter, List.pairwise_iff_getElem] at hpair
  obtain ⟨hlt, rfl⟩ := List.getElem?_eq_some_iff.mp hw
  obtain ⟨hlt', rfl⟩ := List.getElem?_eq_some_iff.mp hw'
  rcases Nat.lt_trichotomy w w' with h | h | h
  · exact absurd hspan (hpair w w' hlt hlt' h hn hn')
  · exact h
  · exact absurd hspan.symm (hpair w' w hlt' hlt h hn' hn)

/-- A reference is bound to a declaration if the facts say that it means it. -/
theorem Realizes.meaning_iff (h : g.Realizes top facts) (hu : Fact.Untied facts)
    (hg : Graph.ofEvents top symbols events = .ok g) {i w : Nat} {x n : Node}
    (hx : g.node? i = some x) (href : x.isReference = true)
    (hspan : x.span.start.byte < x.span.stop.byte) (hw : g.node? w = some n)
    (hn : n.declaresName = true) :
    (g.meaning i).any (·.node == w) = true ↔ Fact.Means facts x n := by
  rcases h.meaning_cases hu hx href hspan with ⟨hnone, hno⟩ | ⟨b, m, hb, hm, hmeans⟩
  · rw [hnone, Option.any_none]
    exact iff_of_false Bool.false_ne_true (hno n)
  · rw [hb, Option.any_some, beq_iff_eq]
    constructor
    · rintro rfl
      obtain rfl : m = n := Option.some.inj (hm.symm.trans hw)
      exact hmeans
    · intro hmeans'
      obtain rfl := hmeans.unique hu hmeans'
      exact distinct_ofEvents hg hm hw hn hn rfl

/-- The references that mean a declaration, by the facts. -/
theorem Realizes.map_spanOf_meaning (h : g.Realizes top facts) (hu : Fact.Untied facts)
    (hg : Graph.ofEvents top symbols events = .ok g)
    (hspan : ∀ x ∈ g.nodes, x.isReference = true → x.span.start.byte < x.span.stop.byte)
    {w : Nat} {n : Node} (hw : g.node? w = some n) (hn : n.declaresName = true) :
    (g.references.filter fun i => (g.meaning i).any (·.node == w)).map g.spanOf =
      Fact.usesAmong facts (g.nodes.filter Node.isReference) n := by
  classical
  have hmeans : ∀ i ∈ g.references, (g.meaning i).any (·.node == w) =
      (g.node? i).any fun x => decide (Fact.Means facts x n) := by
    intro i hi
    obtain ⟨x, hx, href⟩ := mem_references.mp hi
    have hxspan := hspan x (List.mem_of_getElem? hx) href
    rw [hx, Option.any_some, Bool.eq_iff_iff, decide_eq_true_iff]
    exact h.meaning_iff hu hg hx href hxspan hw hn
  rw [List.filter_congr hmeans, references, map_spanOf_positions, Fact.usesAmong]

/-- References come from references. -/
theorem exists_reference_ofEvents (hg : Graph.ofEvents top symbols events = .ok g) {x : Node}
    (hx : x ∈ g.nodes) (href : x.isReference = true) :
    ∃ span text symbol, .reference span text symbol ∈ events ∧ x.span = span := by
  have hmem : x ∈ g.nodes.filter Node.isReference := List.mem_filter.mpr ⟨hx, href⟩
  rw [references_ofEvents hg] at hmem
  obtain ⟨p, hp, rfl⟩ := List.mem_map.mp hmem
  obtain ⟨e, he, hep⟩ := List.mem_filterMap.mp (List.mem_filter.mp hp).1
  cases e with
  | reference span text symbol =>
    cases hep
    exact ⟨span, text, symbol, he, rfl⟩
  | scopeStart | scopeEnd | definition | imported => cases hep

/-- Streams with the same events make the same references. -/
theorem perm_references_ofEvents {events' : List Event} {g' : Graph}
    (hg : Graph.ofEvents top symbols events = .ok g)
    (hg' : Graph.ofEvents top symbols events' = .ok g') (hperm : events.Perm events') :
    (g'.nodes.filter Node.isReference).Perm (g.nodes.filter Node.isReference) := by
  have hdeclared : ∀ s, s ∈ (events'.filterMap (Event.declaration? symbols)).map Node.span ↔
      s ∈ (events.filterMap (Event.declaration? symbols)).map Node.span :=
    fun s => ((hperm.filterMap _).map _).mem_iff.symm
  rw [references_ofEvents hg, references_ofEvents hg']
  simp only [hdeclared]
  exact ((hperm.symm.filterMap _).filter _).map _

/-- **A resolved graph presents its facts and the uses that they determine.** -/
theorem presents_of_resolve (hg : Graph.ofEvents top symbols events = .ok g)
    (h : g.Realizes top facts) (hu : Fact.Untied facts)
    (hspan : ∀ x ∈ g.nodes, x.isReference = true → x.span.start.byte < x.span.stop.byte)
    {rs : List Node} (hrs : (g.nodes.filter Node.isReference).Perm rs) :
    ∃ r counts, g.resolve = .ok (r, counts) ∧ r.Presents top facts (Fact.usesAmong facts rs) := by
  have hfree := unbound_ofEvents hg
  have hok : ∀ i ∈ g.references, g.bindingFor i = .ok (g.meaning i) ∧
      ∀ b, g.meaning i = some b → b.node < g.order :=
    fun i hi => h.structured.bindingFor_eq_ok (h.scopesOrdered hu) hi
  obtain ⟨counts, hresolve⟩ := resolve_unbound_eq hfree (fun i hi => (hok i hi).1)
    fun i hi => (hok i hi).2
  have hincoming : ∀ w, ({ g with edges := g.edges ++
      (meanings g.meaning g.references).map BoundReference.edge } : Graph).incoming w
        Relation.binds = g.references.filter fun i => (g.meaning i).any (·.node == w) := by
    intro w
    rw [incoming_addBindings, hfree.incoming_eq_nil, List.nil_append, filter_meanings_node]
  refine ⟨_, counts, hresolve, ?_, ?_, ?_, ?_⟩
  · exact h.of_extends (extends_resolve hresolve)
  · intro w w' n n' hw hw' hn hn' hspans
    exact distinct_ofEvents hg hw hw' hn hn' hspans
  · intro w i hi
    rw [hincoming] at hi
    obtain ⟨x, hx, -⟩ := mem_references.mp (List.mem_filter.mp hi).1
    exact node?_lt hx
  · intro w n hw hn
    have huses := h.map_spanOf_meaning hu hg hspan hw hn
    rw [hincoming]
    exact huses ▸ Fact.usesAmong_perm facts hrs n

end Graph

namespace Item

/-- **What is rendered does not depend on the order of siblings.**  Take a forest whose
spans leave no ties, and permute its items at any levels.  Both streams have a graph,
both graphs can be resolved, and what is then rendered is the same. -/
theorem render_shuffled {source : String} {symbols : SymbolTable} {items items' : List Item}
    (h : Unambiguous source symbols items) (hshuffled : Shuffled items items') (top : Span) :
    ∃ g g' r r' counts counts',
      Graph.ofEvents top symbols (eventsOf items) = .ok g ∧ g.resolve = .ok (r, counts) ∧
      Graph.ofEvents top symbols (eventsOf items') = .ok g' ∧ g'.resolve = .ok (r', counts') ∧
      r.render source symbols = r'.render source symbols := by
  obtain ⟨g, hg⟩ := Graph.ofEvents_bracketed top symbols (bracketed_eventsOf items)
  obtain ⟨g', hg'⟩ := Graph.ofEvents_bracketed top symbols (bracketed_eventsOf items')
  have hevents := hshuffled.perm_events
  have hdistinct' : ((eventsOf items').filterMap (Event.declaration? symbols)).Pairwise
      fun m n => m.span ≠ n.span :=
    ((hevents.filterMap _).pairwise_iff fun hne => hne.symm).mp h.distinct
  -- both graphs realize the facts of the first stream
  have hreal := Graph.ofEvents_realizes hg h.distinct
  have hreal' := (Graph.ofEvents_realizes hg' hdistinct').congr
    fun f => (hshuffled.perm_facts []).mem_iff.symm
  have hspan : ∀ x ∈ g.nodes, x.isReference = true → x.span.start.byte < x.span.stop.byte := by
    intro x hx href
    obtain ⟨span, text, symbol, he, rfl⟩ := Graph.exists_reference_ofEvents hg hx href
    exact h.nonempty _ text symbol he
  have hspan' : ∀ x ∈ g'.nodes, x.isReference = true → x.span.start.byte < x.span.stop.byte := by
    intro x hx href
    obtain ⟨span, text, symbol, he, rfl⟩ := Graph.exists_reference_ofEvents hg' hx href
    exact h.nonempty _ text symbol (hevents.mem_iff.mpr he)
  obtain ⟨r, counts, hr, hpresents⟩ :=
    Graph.presents_of_resolve hg hreal (h.untied top) hspan (.refl _)
  obtain ⟨r', counts', hr', hpresents'⟩ :=
    Graph.presents_of_resolve hg' hreal' (h.untied top) hspan'
      (Graph.perm_references_ofEvents hg hg' hevents)
  refine ⟨g, g', r, r', counts, counts', hg, hr, hg', hr', ?_⟩
  rw [Graph.render, Graph.render, hpresents.outline_eq hpresents' source symbols]

/-- A block and a definition change places, and in the block a reference comes before
the hoisted definition that it means. -/
theorem render_shuffled_hoisted :
    let span (a b : Nat) : Span := ⟨⟨a, 0, a⟩, ⟨b, 0, b⟩⟩
    let outer : Item := .single (.definition (span 0 1) "x" .localScope none) rfl
    let inner : Item := .single (.definition (span 3 4) "x" .hoisted none) rfl
    let use : Item := .single (.reference (span 5 6) "x" none) rfl
    let items : List Item := [outer, .block (span 2 7) [inner, use]]
    let items' : List Item := [.block (span 2 7) [use, inner], outer]
    Unambiguous "x {x x}" ⟨[]⟩ items ∧ Shuffled items items' ∧
      ∃ g g' r r' counts counts',
        Graph.ofEvents (span 0 7) ⟨[]⟩ (eventsOf items) = .ok g ∧ g.resolve = .ok (r, counts) ∧
        Graph.ofEvents (span 0 7) ⟨[]⟩ (eventsOf items') = .ok g' ∧
        g'.resolve = .ok (r', counts') ∧ g.nodes ≠ g'.nodes ∧
        r.render "x {x x}" ⟨[]⟩ = r'.render "x {x x}" ⟨[]⟩ := by
  intro span outer inner use items items'
  have hevents : eventsOf items =
      [.definition (span 0 1) "x" .localScope none, .scopeStart (span 2 7),
        .definition (span 3 4) "x" .hoisted none, .reference (span 5 6) "x" none,
        .scopeEnd (span 2 7)] := rfl
  have hitems : Unambiguous "x {x x}" ⟨[]⟩ items := by
    refine ⟨?_, ?_, ?_, ?_, ?_⟩
    · intro e he
      rw [hevents] at he
      simp only [List.mem_cons, List.not_mem_nil, or_false] at he
      rcases he with rfl | rfl | rfl | rfl | rfl
      · exact ⟨0, 1, rfl⟩
      · exact ⟨2, 7, rfl⟩
      · exact ⟨3, 4, rfl⟩
      · exact ⟨5, 6, rfl⟩
      · exact ⟨2, 7, rfl⟩
    · intro s t hs ht
      simp only [hevents, List.mem_cons, Event.scopeStart.injEq, reduceCtorEq, List.not_mem_nil,
        false_or, or_false] at hs ht
      rw [hs, ht]
      exact Or.inl (Span.contains_refl _)
    · intro s text symbol hs
      simp only [hevents, List.mem_cons, Event.reference.injEq, reduceCtorEq, List.not_mem_nil,
        false_or, or_false] at hs
      rw [hs.1]
      decide
    · rw [hevents]
      decide
    · rw [hevents]
      decide
  have hshuffled : Shuffled items items' :=
    .trans (.cons outer (.block (span 2 7) (.swap use inner []) .nil)) (.swap _ outer [])
  obtain ⟨g, g', r, r', counts, counts', hg, hr, hg', hr', hrender⟩ :=
    render_shuffled hitems hshuffled (span 0 7)
  refine ⟨hitems, hshuffled, g, g', r, r', counts, counts', hg, hr, hg', hr', ?_, hrender⟩
  have hfirst : Graph.ofEvents (span 0 7) ⟨[]⟩ (eventsOf items) = .ok _ := rfl
  have hsecond : Graph.ofEvents (span 0 7) ⟨[]⟩ (eventsOf items') = .ok _ := rfl
  rw [hfirst, Except.ok.injEq] at hg
  rw [hsecond, Except.ok.injEq] at hg'
  rw [← hg, ← hg']
  decide

end Item
end NameBinding
