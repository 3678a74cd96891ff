import Mathlib.Data.List.Nodup
import NameBinding.Outline.Text
import NameBinding.Proofs.Denotation
import NameBinding.Proofs.SpanOrder

/-!
# What outlines depend on

An outline lists everything in the order of spans and shows no positions.  Two nodes
with one span keep the order of their positions, but then they are references, of which
an outline shows only what their spans determine.  So an outline is a function of the
scopes and declarations of a graph, at their addresses, and of the spans at which each
declaration is used.

## Main definitions

* `Graph.Presents` — the facts of a graph and the uses of its declarations.

## Main results

* `Graph.map_sortBySpan_congr` — sorting by span forgets positions.
* `Presents.outline_eq` — **graphs that present the same have the same outline.**
-/

namespace NameBinding

namespace Graph

theorem precedes_eq (g : Graph) (i j : Nat) :
    g.precedes i j = (compareLex (compareOn g.spanOf) compare i j).isLE := rfl

theorem precedes_trans (g : Graph) (i j k : Nat) (hij : g.precedes i j = true)
    (hjk : g.precedes j k = true) : g.precedes i k = true := by
  rw [precedes_eq] at *
  exact Std.TransCmp.isLE_trans hij hjk

theorem precedes_total (g : Graph) (i j : Nat) : (g.precedes i j || g.precedes j i) = true := by
  have hswap : compareLex (compareOn g.spanOf) compare j i =
      (compareLex (compareOn g.spanOf) compare i j).swap := Std.OrientedCmp.eq_swap
  rw [precedes_eq, precedes_eq, hswap]
  cases compareLex (compareOn g.spanOf) compare i j <;> rfl

/-- Nodes that precede each other are the same. -/
theorem precedes_antisymm (g : Graph) {i j : Nat} (hij : g.precedes i j = true)
    (hji : g.precedes j i = true) : i = j := by
  rw [precedes_eq] at hij hji
  have heq : compareLex (compareOn g.spanOf) compare i j = .eq :=
    Std.OrientedCmp.isLE_antisymm hij hji
  rw [compareLex, Ordering.then_eq_eq] at heq
  exact Std.LawfulEqCmp.eq_of_compare heq.2

/-- Sorted nodes have sorted spans. -/
theorem pairwise_sortBySpan (g : Graph) (is : List Nat) :
    ((g.sortBySpan is).map g.spanOf).Pairwise fun s t => (compare s t).isLE = true := by
  rw [List.pairwise_map]
  refine (List.pairwise_mergeSort g.precedes_trans g.precedes_total is).imp fun {i j} hij => ?_
  -- the span decides before the position does
  unfold precedes at hij
  cases hc : compare (g.spanOf i) (g.spanOf j) with
  | lt | eq => rfl
  | gt =>
    rw [hc] at hij
    cases hij

/-- Lists whose keys agree have the same image, if equal keys have. -/
theorem map_eq_map_of_keys {α β γ : Type} {k : α → γ} {k' : α → γ} {f f' : α → β} :
    ∀ {as as' : List α}, as.map k = as'.map k' →
      (∀ a ∈ as, ∀ a' ∈ as', k a = k' a' → f a = f' a') → as.map f = as'.map f' := by
  intro as
  induction as with
  | nil =>
    intro as' hkeys _
    obtain rfl := List.map_eq_nil_iff.mp hkeys.symm
    rfl
  | cons a as ih =>
    intro as' hkeys h
    cases as' with
    | nil => cases hkeys
    | cons a' as' =>
      obtain ⟨hhead, htail⟩ := List.cons.inj hkeys
      have hrest := ih htail fun b hb b' hb' =>
        h b (List.mem_cons_of_mem _ hb) b' (List.mem_cons_of_mem _ hb')
      rw [List.map_cons, List.map_cons, hrest,
        h a (List.mem_cons_self ..) a' (List.mem_cons_self ..) hhead]

/-- **Sorting by span forgets positions**, if the spans are the same and what is made of
the nodes depends on their spans only. -/
theorem map_sortBySpan_congr {β : Type} {g g' : Graph} {is is' : List Nat} {f f' : Nat → β}
    (hperm : (is.map g.spanOf).Perm (is'.map g'.spanOf))
    (hf : ∀ i ∈ is, ∀ i' ∈ is', g.spanOf i = g'.spanOf i' → f i = f' i') :
    (g.sortBySpan is).map f = (g'.sortBySpan is').map f' := by
  have hsort := (List.mergeSort_perm is g.precedes).map g.spanOf
  have hsort' := (List.mergeSort_perm is' g'.precedes).map g'.spanOf
  have hspans : (g.sortBySpan is).map g.spanOf = (g'.sortBySpan is').map g'.spanOf := by
    refine List.Perm.eq_of_pairwise ?_ (g.pairwise_sortBySpan is) (g'.pairwise_sortBySpan is')
      (hsort.trans (hperm.trans hsort'.symm))
    intro s t _ _ hst hts
    exact Std.LawfulEqCmp.eq_of_compare (Std.OrientedCmp.isLE_antisymm hst hts)
  refine map_eq_map_of_keys hspans ?_
  intro i hi i' hi'
  exact hf i (List.mem_mergeSort.mp hi) i' (List.mem_mergeSort.mp hi')

/-! ### What lies in a scope -/

theorem Structured.length_attachments_le {top : Span} {g : Graph} (h : g.Structured top)
    (i : Nat) : (g.attachments i).length ≤ 1 := by
  cases hatt : g.attachments i with
  | nil => simp
  | cons e es =>
    obtain ⟨he, rfl, hbinds⟩ := mem_attachments.mp (hatt ▸ List.mem_cons_self ..)
    rw [← hatt, h.attachments_of_edge he hbinds]
    simp

/-- Among some edges no node is a source more often than it is one of all edges like them. -/
theorem count_sources_le (g : Graph) (i : Nat) {q : Edge → Bool} {p : Relation → Bool}
    (hq : ∀ e, q e = true → p e.kind = true) :
    ((g.edges.filter q).map Edge.source).count i ≤
      (g.edges.filter fun e => e.source == i && p e.kind).length := by
  rw [List.count, List.countP_map, List.countP_filter, List.countP_eq_length_filter]
  refine List.Sublist.length_le (List.monotone_filter_right _ fun e he => ?_)
  rw [Bool.and_eq_true] at he ⊢
  exact ⟨he.1, hq e he.2⟩

/-- No node is attached by two edges. -/
theorem Structured.nodup_sources {top : Span} {g : Graph} (h : g.Structured top)
    {q : Edge → Bool} (hq : ∀ e, q e = true → e.kind.binds = false) :
    ((g.edges.filter q).map Edge.source).Nodup := by
  rw [List.nodup_iff_count_le_one]
  intro i
  refine Nat.le_trans (g.count_sources_le i (p := fun k => !k.binds) fun e he => ?_)
    (h.length_attachments_le i)
  rw [hq e he]
  rfl

/-- Nothing lies in a scope twice. -/
theorem Structured.nodup_incoming {top : Span} {g : Graph} (h : g.Structured top) (p : Nat)
    {kind : Relation} (hbinds : kind.binds = false) : (g.incoming p (· == kind)).Nodup := by
  apply h.nodup_sources
  intro e he
  exact Relation.binds_of_beq hbinds _ (Bool.and_eq_true_iff.mp he).2

/-- Nothing is bound to a node twice. -/
theorem SingleBindings.nodup_incoming {g : Graph} (h : g.SingleBindings) (w : Nat) :
    (g.incoming w Relation.binds).Nodup := by
  rw [List.nodup_iff_count_le_one]
  intro i
  have hone := h i
  rw [outgoing, List.length_map] at hone
  exact Nat.le_trans (g.count_sources_le i fun e he => (Bool.and_eq_true_iff.mp he).2) hone

/-- The nodes at some positions, and their spans. -/
theorem filterMap_node? {g : Graph} {is : List Nat} (h : ∀ i ∈ is, i < g.order) :
    (is.filterMap g.node?).map Node.span = is.map g.spanOf := by
  induction is with
  | nil => rfl
  | cons i is ih =>
    obtain ⟨n, hn⟩ : ∃ n, g.node? i = some n :=
      ⟨_, List.getElem?_eq_getElem (h i (List.mem_cons_self ..))⟩
    rw [List.filterMap_cons, hn, List.map_cons, List.map_cons,
      ih fun j hj => h j (List.mem_cons_of_mem _ hj), spanOf_eq hn]

/-- Positions may be tested before the nodes are taken, or the nodes afterwards. -/
theorem filterMap_node?_filter (g : Graph) (p : Node → Bool) (is : List Nat) :
    (is.filter fun i => (g.node? i).any p).filterMap g.node? = (is.filterMap g.node?).filter p := by
  rw [List.filterMap_filter, List.filter_filterMap]
  refine List.filterMap_congr fun i _ => ?_
  cases g.node? i with
  | none => rfl
  | some n => simp [Option.filter]

theorem filterMap_positions (g : Graph) (p : Node → Bool) :
    (g.positions p).filterMap g.node? = g.nodes.filter p := by
  have hall : ∀ ns : List Node, (List.range ns.length).filterMap (fun i => ns[i]?) = ns := by
    intro ns
    induction ns with
    | nil => rfl
    | cons n ns ih =>
      rw [List.length_cons, List.range_succ_eq_map, List.filterMap_cons, List.filterMap_map]
      simpa [Function.comp_def] using ih
  have hnodes : (List.range g.order).filterMap g.node? = g.nodes := hall g.nodes
  rw [positions, filterMap_node?_filter, hnodes]

/-- The context of a use depends on its span only. -/
theorem usageContexts_eq_map {g : Graph} (source : String) {w : Nat}
    (hbound : ∀ i ∈ g.incoming w Relation.binds, i < g.order) :
    g.usageContexts source w = (g.usesOf w).map fun j => (g.spanOf j).context source := by
  have hlt : ∀ j ∈ g.usesOf w, j < g.order := by
    intro j hj
    exact hbound j (List.mem_mergeSort.mp hj)
  have hmap := congrArg (List.map fun s => s.context source) (filterMap_node? hlt)
  rwa [List.map_map, List.map_map] at hmap

/-- The graph has the given facts, its declarations have different spans, and each is
bound to references at the given spans. -/
structure Presents (top : Span) (facts : List Fact) (uses : Node → List Span) (g : Graph) :
    Prop where
  realizes : g.Realizes top facts
  distinct : ∀ w w' n n', g.node? w = some n → g.node? w' = some n' → n.declaresName = true →
    n'.declaresName = true → n.span = n'.span → w = w'
  bound : ∀ w, ∀ i ∈ g.incoming w Relation.binds, i < g.order
  uses_perm : ∀ w n, g.node? w = some n → n.declaresName = true →
    ((g.incoming w Relation.binds).map g.spanOf).Perm (uses n)

theorem declaresName_of_attachment {n : Node} {kind : Relation}
    (hkind : n.attachment = some kind) (hdeclares : kind.declares = true) :
    n.declaresName = true := by
  cases n with
  | definition | imported => rfl
  | scope => cases hkind; cases hdeclares
  | reference => cases hkind

namespace Presents

variable {top : Span} {facts : List Fact} {uses : Node → List Span} {g g' : Graph}
  {i i' : Nat} {a : Address} {kind : Relation}

/-- What the graph declares in a scope is what the facts declare there. -/
theorem declared (h : g.Presents top facts uses) (hi : g.At i a) (hkind : kind.declares = true)
    {w : Nat} (hw : w ∈ g.incoming i (· == kind)) :
    ∃ n, g.node? w = some n ∧ n.attachment = some kind ∧ .declaration a n ∈ facts := by
  have he := mem_incoming_beq.mp hw
  obtain ⟨-, n, hn, hattach⟩ :=
    h.realizes.structured.source_of_edge he (Relation.binds_of_declares _ hkind)
  exact ⟨n, hn, hattach, (h.realizes.declarations a n).mp ⟨i, w, kind, hi, hkind, he, hn⟩⟩

theorem exists_declared (h : g.Presents top facts uses) (hi : g.At i a) {n : Node}
    (hattach : n.attachment = some kind) (hn : .declaration a n ∈ facts) :
    ∃ w ∈ g.incoming i (· == kind), g.node? w = some n := by
  obtain ⟨p, w, kind', hp, hkind, he, hw⟩ := (h.realizes.declarations a n).mpr hn
  obtain rfl := h.realizes.structured.at_position_unique hi hp
  obtain ⟨-, n', hn', hattach'⟩ :=
    h.realizes.structured.source_of_edge he (Relation.binds_of_declares _ hkind)
  obtain rfl : n = n' := Option.some.inj (hw.symm.trans hn')
  obtain rfl : kind = kind' := Option.some.inj (hattach.symm.trans hattach')
  exact ⟨w, mem_incoming_beq.mpr he, hw⟩

/-- Declarations in one scope have different spans. -/
theorem nodup_declared (h : g.Presents top facts uses) (hi : g.At i a)
    (hkind : kind.declares = true) : ((g.incoming i (· == kind)).map g.spanOf).Nodup := by
  refine List.Nodup.map_on ?_
    (h.realizes.structured.nodup_incoming i (Relation.binds_of_declares _ hkind))
  intro w hw w' hw' hspan
  obtain ⟨n, hn, hattach, -⟩ := h.declared hi hkind hw
  obtain ⟨n', hn', hattach', -⟩ := h.declared hi hkind hw'
  rw [spanOf_eq hn, spanOf_eq hn'] at hspan
  exact h.distinct w w' n n' hn hn' (declaresName_of_attachment hattach hkind)
    (declaresName_of_attachment hattach' hkind) hspan

/-- A declaration of the one graph is one of the other. -/
theorem exists_counterpart (h : g.Presents top facts uses) (h' : g'.Presents top facts uses)
    (hi : g.At i a) (hi' : g'.At i' a) (hkind : kind.declares = true) {w : Nat}
    (hw : w ∈ g.incoming i (· == kind)) :
    ∃ w' ∈ g'.incoming i' (· == kind), ∃ n, g.node? w = some n ∧ g'.node? w' = some n ∧
      n.declaresName = true := by
  obtain ⟨n, hn, hattach, hfact⟩ := h.declared hi hkind hw
  obtain ⟨w', hw', hn'⟩ := h'.exists_declared hi' hattach hfact
  exact ⟨w', hw', n, hn, hn', declaresName_of_attachment hattach hkind⟩

theorem declared_spans_subset (h : g.Presents top facts uses) (h' : g'.Presents top facts uses)
    (hi : g.At i a) (hi' : g'.At i' a) (hkind : kind.declares = true) :
    (g.incoming i (· == kind)).map g.spanOf ⊆ (g'.incoming i' (· == kind)).map g'.spanOf := by
  intro s hs
  obtain ⟨w, hw, rfl⟩ := List.mem_map.mp hs
  obtain ⟨w', hw', n, hn, hn', -⟩ := h.exists_counterpart h' hi hi' hkind hw
  exact List.mem_map.mpr ⟨w', hw', by rw [spanOf_eq hn, spanOf_eq hn']⟩

/-- What is listed of the declarations in a scope depends on their nodes only. -/
theorem map_declared (h : g.Presents top facts uses) (h' : g'.Presents top facts uses)
    (hi : g.At i a) (hi' : g'.At i' a) (hkind : kind.declares = true) {β : Type}
    {f f' : Nat → β} (hf : ∀ w w' n, g.node? w = some n → g'.node? w' = some n →
      n.declaresName = true → f w = f' w') :
    (g.sortBySpan (g.incoming i (· == kind))).map f =
      (g'.sortBySpan (g'.incoming i' (· == kind))).map f' := by
  refine map_sortBySpan_congr ?_ ?_
  · rw [List.perm_ext_iff_of_nodup (h.nodup_declared hi hkind) (h'.nodup_declared hi' hkind)]
    intro s
    exact ⟨fun hs => h.declared_spans_subset h' hi hi' hkind hs,
      fun hs => h'.declared_spans_subset h hi' hi hkind hs⟩
  · intro w hw v hv hspan
    -- the counterpart of `w` and `v` have one span, so they are one declaration
    obtain ⟨w', -, n, hn, hn', hdecl⟩ := h.exists_counterpart h' hi hi' hkind hw
    obtain ⟨m, hm, hattach, -⟩ := h'.declared hi' hkind hv
    rw [spanOf_eq hn, spanOf_eq hm] at hspan
    obtain rfl := h'.distinct w' v n m hn' hm hdecl (declaresName_of_attachment hattach hkind) hspan
    exact hf w w' n hn hn' hdecl

/-- So have the scopes in one scope. -/
theorem nodup_scopes (h : g.Presents top facts uses) (hi : g.At i a) :
    ((g.incoming i (· == .scopeToScope)).map g.spanOf).Nodup := by
  refine List.Nodup.map_on ?_ (h.realizes.structured.nodup_incoming i rfl)
  intro c hc d hd hspan
  have hc' := mem_incoming_scopes.mp hc
  have hd' := mem_incoming_scopes.mp hd
  refine h.realizes.structured.at_position_unique (.child hi hc') ?_
  rw [hspan]
  exact .child hi hd'

theorem mem_scope_spans (h : g.Presents top facts uses) (hi : g.At i a) {s : Span} :
    s ∈ (g.incoming i (· == .scopeToScope)).map g.spanOf ↔ s ∈ Fact.innerSpans facts a := by
  rw [← h.realizes.isChild_iff hi]
  simp only [List.mem_map, mem_incoming_scopes]

/-- What is listed of the scopes in a scope depends on their addresses only. -/
theorem map_scopes (h : g.Presents top facts uses) (h' : g'.Presents top facts uses)
    (hi : g.At i a) (hi' : g'.At i' a) {β : Type} {f f' : Nat → β}
    (hf : ∀ c c' s, g.IsChild i c → g'.IsChild i' c' → g.At c (s :: a) → g'.At c' (s :: a) →
      f c = f' c') :
    (g.scopesIn i).map f = (g'.scopesIn i').map f' := by
  refine map_sortBySpan_congr ?_ ?_
  · rw [List.perm_ext_iff_of_nodup (h.nodup_scopes hi) (h'.nodup_scopes hi')]
    intro s
    rw [h.mem_scope_spans hi, h'.mem_scope_spans hi']
  · intro c hc c' hc' hspan
    have hchild := mem_incoming_scopes.mp hc
    have hchild' := mem_incoming_scopes.mp hc'
    refine hf c c' (g.spanOf c) hchild hchild' (.child hi hchild) ?_
    rw [hspan]
    exact .child hi' hchild'

/-! ### Outlines -/

theorem usageContexts_eq (h : g.Presents top facts uses) (h' : g'.Presents top facts uses)
    (source : String) {w w' : Nat} {n : Node} (hw : g.node? w = some n)
    (hw' : g'.node? w' = some n) (hn : n.declaresName = true) :
    g.usageContexts source w = g'.usageContexts source w' := by
  rw [usageContexts_eq_map source (h.bound w), usageContexts_eq_map source (h'.bound w')]
  refine map_sortBySpan_congr ((h.uses_perm w n hw hn).trans (h'.uses_perm w' n hw' hn).symm) ?_
  intro j _ j' _ hspan
  rw [hspan]

/-- The outlines of the scopes at one address are the same, if all levels are shown. -/
theorem outlineTo_eq (h : g.Presents top facts uses) (h' : g'.Presents top facts uses)
    (source : String) (symbols : SymbolTable) : ∀ (n m : Nat) {i i' : Nat} {a : Address},
      g.At i a → g'.At i' a → g.order ≤ i + n → g'.order ≤ i' + m →
      g.outlineTo source symbols n i = g'.outlineTo source symbols m i' := by
  intro n
  induction n with
  | zero =>
    intro m i i' a hi _ hn _
    have := h.realizes.structured.at_lt hi
    omega
  | succ n ih =>
    intro m i i' a hi hi' hn hm
    have hlt' := h'.realizes.structured.at_lt hi'
    obtain ⟨m, rfl⟩ : ∃ k, m = k + 1 := ⟨m - 1, by omega⟩
    have hspan : g.spanOf i = g'.spanOf i' := by
      rw [h.realizes.structured.spanOf_of_at hi, h'.realizes.structured.spanOf_of_at hi']
    have hdefs : (g.definitionsIn i).map (g.definitionOutline? source symbols) =
        (g'.definitionsIn i').map (g'.definitionOutline? source symbols) := by
      refine h.map_declared h' hi hi' rfl ?_
      intro w w' n hw hw' hdecl
      simp only [definitionOutline?, hw, hw', h.usageContexts_eq h' source hw hw' hdecl]
    have himports : (g.importsIn i).map (g.importOutline? source) =
        (g'.importsIn i').map (g'.importOutline? source) := by
      refine h.map_declared h' hi hi' rfl ?_
      intro w w' n hw hw' hdecl
      simp only [importOutline?, hw, hw', h.usageContexts_eq h' source hw hw' hdecl]
    have hscopes : (g.scopesIn i).map (g.outlineTo source symbols n) =
        (g'.scopesIn i').map (g'.outlineTo source symbols m) := by
      refine h.map_scopes h' hi hi' ?_
      intro c c' s hc hc' hat hat'
      have hlt := h.realizes.structured.isChild_lt hc
      have hlt' := h'.realizes.structured.isChild_lt hc'
      exact ih m hat hat' (by omega) (by omega)
    -- listing drops what is none, before or after the lists are compared
    have hlisted : ∀ {β : Type} {js js' : List Nat} {f f' : Nat → Option β},
        js.map f = js'.map f' → js.filterMap f = js'.filterMap f' := by
      intro β js js' f f' hmap
      simpa [List.filterMap_map] using congrArg (List.filterMap id) hmap
    rw [outlineTo, outlineTo, hspan, hscopes, hlisted hdefs, hlisted himports]

/-- **Graphs that present the same have the same outline.** -/
theorem outline_eq (h : g.Presents top facts uses) (h' : g'.Presents top facts uses)
    (source : String) (symbols : SymbolTable) :
    g.outline source symbols root = g'.outline source symbols root :=
  h.outlineTo_eq h' source symbols (g.order + 1) (g'.order + 1) .root .root (by omega) (by omega)

end Presents
end Graph
end NameBinding
