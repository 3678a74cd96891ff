import NameBinding.Proofs.Usages

/-!
# The order of a batch

Bindings are recorded as edges, in the order in which they are given.  Nothing that can be asked
of a graph shows this order: what leads to a node is listed by span and position, counts count,
and a node has one binding at most.  So a batch that binds each of its references once may be
given in any order.

## Main definitions

* `Graph.Rearranged` — the same graph, but for the order of its edges.

## Main results

* `Rearranged.sortBySpan_eq` — what is listed by span does not show the order of edges.
* `Rearranged.boundTo?_eq`, `Rearranged.outlineTo_eq`, `Rearranged.bindingCounts_eq` — nor does
  anything else.
* `rearranged_bindAll` — a batch in another order makes the same graph, but for the order.
* `bindAll_any_order` — **the order of a batch cannot be seen.**
-/

namespace NameBinding
namespace Graph

/-- The graph `g'` is `g`, but for the order of its edges. -/
structure Rearranged (g g' : Graph) : Prop where
  nodes : g'.nodes = g.nodes
  edges : g'.edges.Perm g.edges

namespace Rearranged

variable {g g' : Graph}

theorem node?_eq (h : g.Rearranged g') : g'.node? = g.node? := by
  funext i
  rw [node?, h.nodes, ← node?]

theorem order_eq (h : g.Rearranged g') : g'.order = g.order := by
  rw [order, h.nodes, ← order]

theorem incoming_perm (h : g.Rearranged g') (i : Nat) (p : Relation → Bool) :
    (g'.incoming i p).Perm (g.incoming i p) :=
  (h.edges.filter _).map _

theorem outgoing_perm (h : g.Rearranged g') (i : Nat) (p : Relation → Bool) :
    (g'.outgoing i p).Perm (g.outgoing i p) :=
  (h.edges.filter _).map _

/-! ### What is listed -/

/-- **What is listed by span does not show the order of edges.** -/
theorem sortBySpan_eq (h : g.Rearranged g') {is is' : List Nat} (hperm : is'.Perm is) :
    g'.sortBySpan is' = g.sortBySpan is := by
  have hprecedes : g'.precedes = g.precedes := by
    funext i j
    simp only [precedes, spanOf, h.node?_eq]
  have hsort := List.mergeSort_perm is g.precedes
  have hsort' := List.mergeSort_perm is' g.precedes
  rw [sortBySpan, hprecedes, sortBySpan]
  refine List.Perm.eq_of_pairwise (fun i j _ _ => g.precedes_antisymm)
    (List.pairwise_mergeSort g.precedes_trans g.precedes_total is')
    (List.pairwise_mergeSort g.precedes_trans g.precedes_total is) ?_
  exact hsort'.trans (hperm.trans hsort.symm)

theorem usesOf_eq (h : g.Rearranged g') (w : Nat) : g'.usesOf w = g.usesOf w :=
  h.sortBySpan_eq (h.incoming_perm w _)

theorem usageContexts_eq (h : g.Rearranged g') (source : String) :
    g'.usageContexts source = g.usageContexts source := by
  funext w
  rw [usageContexts, h.usesOf_eq, h.node?_eq, ← usageContexts]

theorem outlineTo_eq (h : g.Rearranged g') (source : String) (symbols : SymbolTable) :
    ∀ n i, g'.outlineTo source symbols n i = g.outlineTo source symbols n i := by
  have hspan : g'.spanOf = g.spanOf := by
    funext i
    rw [spanOf, h.node?_eq, ← spanOf]
  have hdefs : g'.definitionOutline? source symbols = g.definitionOutline? source symbols := by
    funext w
    simp only [definitionOutline?, h.node?_eq, h.usageContexts_eq]
  have himports : g'.importOutline? source = g.importOutline? source := by
    funext w
    simp only [importOutline?, h.node?_eq, h.usageContexts_eq]
  intro n
  induction n with
  | zero =>
    intro i
    rw [outlineTo, outlineTo, hspan]
  | succ n ih =>
    intro i
    have hdefinitions : g'.definitionsIn i = g.definitionsIn i :=
      h.sortBySpan_eq (h.incoming_perm i _)
    have himportsIn : g'.importsIn i = g.importsIn i := h.sortBySpan_eq (h.incoming_perm i _)
    have hscopes : g'.scopesIn i = g.scopesIn i := h.sortBySpan_eq (h.incoming_perm i _)
    rw [outlineTo, outlineTo, hspan, hdefs, himports, hdefinitions, himportsIn, hscopes]
    congr 1
    exact List.map_congr_left fun c _ => ih c

theorem render_eq (h : g.Rearranged g') (source : String) (symbols : SymbolTable) :
    g'.render source symbols = g.render source symbols := by
  rw [render, outline, h.order_eq, h.outlineTo_eq, ← outline, ← render]

/-! ### What is counted -/

theorem counts_eq (h : g.Rearranged g') : g'.counts = g.counts := by
  simp only [counts, h.nodes, edgeTotal, h.edges.length_eq, h.edges.countP_eq]

theorem singleBindings (h : g.Rearranged g') (hsingle : g.SingleBindings) : g'.SingleBindings := by
  intro i
  rw [(h.outgoing_perm i _).length_eq]
  exact hsingle i

/-- With one binding a node, there is no first one to ask for. -/
theorem boundTo?_eq (h : g.Rearranged g') (hsingle : g.SingleBindings) (i : Nat) :
    g'.boundTo? i = g.boundTo? i := by
  refine Option.ext fun w => ?_
  rw [← (h.singleBindings hsingle).mem_incoming_iff, ← hsingle.mem_incoming_iff]
  exact (h.incoming_perm w _).mem_iff

theorem bindingCounts_eq (h : g.Rearranged g') (hsingle : g.SingleBindings) :
    g'.bindingCounts = g.bindingCounts := by
  simp only [bindingCounts, boundNode?, references, positions, h.order_eq, h.node?_eq,
    h.boundTo?_eq hsingle]

end Rearranged

/-! ### Batches -/

/-- A batch in another order makes the same graph, but for the order of the edges. -/
theorem rearranged_bindAll (g : Graph) {bs bs' : List BoundReference}
    (hlt : ∀ b ∈ bs, b.reference < g.order ∧ b.binding.node < g.order)
    (hdistinct : (bs.map BoundReference.reference).Nodup) (hperm : bs.Perm bs') :
    (g.bindAll bs').1.Rearranged (g.bindAll bs).1 := by
  have hlt' : ∀ b ∈ bs', b.reference < g.order ∧ b.binding.node < g.order :=
    fun b hb => hlt b (hperm.mem_iff.mpr hb)
  have hdistinct' : (bs'.map BoundReference.reference).Nodup :=
    (hperm.map _).nodup_iff.mp hdistinct
  obtain ⟨counts, hbs⟩ := bindAll_eq bs g hlt hdistinct
  obtain ⟨counts', hbs'⟩ := bindAll_eq bs' g hlt' hdistinct'
  rw [hbs, hbs']
  exact ⟨rfl, ((hperm.filter _).map _).append_left _⟩

/-- **The order of a batch cannot be seen.**  Take any graph built from events in which bindings
have been recorded by any calls, and a batch of bindings between its nodes that binds no
reference twice.  Recorded in any order, the batch has the same outcome and leaves a graph of
the same size, in which every node is bound to the same node, has the same uses in the same
order, and which is rendered the same. -/
theorem bindAll_any_order {top : Span} {symbols : SymbolTable} {events : List Event} {g : Graph}
    (hg : Graph.ofEvents top symbols events = .ok g) (calls : List BindingCall)
    {bs bs' : List BoundReference}
    (hlt : ∀ b ∈ bs, b.reference < g.order ∧ b.binding.node < g.order)
    (hdistinct : (bs.map BoundReference.reference).Nodup) (hperm : bs.Perm bs') :
    ∃ r r' counts, (g.performAll calls).bindAll bs = (r, .ok counts) ∧
      (g.performAll calls).bindAll bs' = (r', .ok counts) ∧ r.counts = r'.counts ∧
      (∀ i, r.boundTo? i = r'.boundTo? i) ∧ (∀ w, r.usesOf w = r'.usesOf w) ∧
      ∀ source labels, r.render source labels = r'.render source labels := by
  have hext := extends_performAll calls g
  rw [← hext.order_eq] at hlt
  have hsame := rearranged_bindAll _ hlt hdistinct hperm
  have hsingle := ((unbound_ofEvents hg).singleBindings.performAll calls).bindAll bs'
  have hok := (bindAll_eq_ok bs _ hlt).1
  have hok' := (bindAll_eq_ok bs' _ fun b hb => hlt b (hperm.mem_iff.mpr hb)).1
  rw [hsame.bindingCounts_eq hsingle] at hok
  exact ⟨_, _, _, Prod.ext rfl hok, Prod.ext rfl hok', hsame.counts_eq, hsame.boundTo?_eq hsingle,
    hsame.usesOf_eq, hsame.render_eq⟩

/-- Two uses at one span and one that is bound already, forwards and backwards. -/
theorem bindAll_any_order_reversed :
    let span (a b : Nat) : Span := ⟨⟨a, 0, a⟩, ⟨b, 0, b⟩⟩
    let events : List Event :=
      [.scopeStart (span 0 9), .definition (span 1 2) "f" .hoisted none,
        .imported (span 2 3) "g", .reference (span 4 5) "f" none, .reference (span 4 5) "f" none,
        .reference (span 6 7) "g" none, .scopeEnd .zero]
    let g : Graph :=
      ⟨[.scope (span 0 10), .scope (span 0 9), .definition (span 1 2) "f" none,
          .imported (span 2 3) "g", .reference (span 4 5) "f" none,
          .reference (span 4 5) "f" none, .reference (span 6 7) "g" none],
        [⟨1, 0, .scopeToScope⟩, ⟨2, 0, .definitionToScope⟩, ⟨3, 1, .importToScope⟩]⟩
    let calls : List BindingCall := [.bind 6 (.definition 2)]
    let bs : List BoundReference := [⟨4, .definition 2⟩, ⟨6, .imported 3⟩, ⟨5, .definition 2⟩]
    Graph.ofEvents (span 0 10) ⟨[]⟩ events = .ok g ∧
      (∀ b ∈ bs, b.reference < g.order ∧ b.binding.node < g.order) ∧
      (bs.map BoundReference.reference).Nodup ∧ bs.Perm bs.reverse ∧
      ∃ r r' counts, (g.performAll calls).bindAll bs = (r, .ok counts) ∧
        (g.performAll calls).bindAll bs.reverse = (r', .ok counts) ∧ r.edges ≠ r'.edges ∧
        r.counts = r'.counts ∧ (∀ i, r.boundTo? i = r'.boundTo? i) ∧
        (∀ w, r.usesOf w = r'.usesOf w) ∧
        ∀ source labels, r.render source labels = r'.render source labels := by
  intro span events g calls bs
  have hg : Graph.ofEvents (span 0 10) ⟨[]⟩ events = .ok g := by decide +kernel
  have hlt : ∀ b ∈ bs, b.reference < g.order ∧ b.binding.node < g.order := by decide
  have hdistinct : (bs.map BoundReference.reference).Nodup := by decide
  have hperm : bs.Perm bs.reverse := (List.reverse_perm bs).symm
  have hedges : ((g.performAll calls).bindAll bs).1.edges ≠
      ((g.performAll calls).bindAll bs.reverse).1.edges := by decide +kernel
  obtain ⟨r, r', counts, hr, hr', hsame⟩ := bindAll_any_order hg calls hlt hdistinct hperm
  rw [hr, hr'] at hedges
  exact ⟨hg, hlt, hdistinct, hperm, r, r', counts, hr, hr', hedges, hsame⟩

end Graph
end NameBinding
