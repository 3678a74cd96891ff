import NameBinding.Proofs.Growth

/-!
# Recording what references denote

A built graph binds nothing yet.  Resolving it looks every reference up and then adds
one edge for each that denotes something, to what it denotes, and no other edge: the
references are distinct, so that none is found bound already.

## Main definitions

* `Graph.Unbound` — the graph has no bindings.
* `BoundReference.edge` — the edge that records a binding.
* `Graph.meanings` — the bindings of those references that mean something.
* `Graph.SingleBindings` — no node has more than one binding.

## Main results

* `Graph.unbound_ofEvents` — the graph of a stream is unbound.
* `Graph.resolve_unbound` — **resolving an unbound graph binds every reference to what
  it denotes, and to nothing else.**
* `SingleBindings.bindReference`, `SingleBindings.bindAll` — no binding is added to another.
* `SingleBindings.mem_incoming_iff` — then both ways to ask for a binding agree.
-/

namespace NameBinding
namespace Graph

/-- The graph has no bindings. -/
def Unbound (g : Graph) : Prop := ∀ e ∈ g.edges, e.kind.binds = false

namespace Unbound

variable {g : Graph}

theorem addInside (h : g.Unbound) {n : Node} {kind : Relation} {p : Nat}
    (hkind : kind.binds = false) : (g.addInside n kind p).Unbound := by
  intro e he
  rw [edges_addInside, List.mem_append, List.mem_singleton] at he
  rcases he with he | rfl
  · exact h e he
  · exact hkind

theorem withReferences (h : g.Unbound) (rs : List PendingReference) :
    (rs.foldl (fun g r => g.withReference r.span r.name r.symbol) g).Unbound := by
  induction rs generalizing g with
  | nil => exact h
  | cons r rs ih =>
    refine ih ?_
    intro e he
    rw [edges_withReference] at he
    exact h e he

/-- One event binds nothing. -/
theorem push {c c' : Construction} {e : Event} (h : c.graph.Unbound) (hpush : c.push e = .ok c') :
    c'.graph.Unbound := by
  cases e with
  | scopeStart span =>
    cases hpush
    unfold Construction.openScope
    simp only
    split
    · exact h
    · split
      · exact h
      · exact h.addInside rfl
  | scopeEnd span =>
    rw [Construction.push] at hpush
    split at hpush <;> cases hpush
    exact h
  | definition span text scoping symbol =>
    rw [Construction.push] at hpush
    split at hpush <;> cases hpush
    · exact h
    · exact h.addInside rfl
  | imported span text =>
    rw [Construction.push] at hpush
    split at hpush <;> cases hpush
    · exact h
    · exact h.addInside rfl
  | reference span text symbol =>
    cases hpush
    exact h

theorem pushAll {events : List Event} {c c' : Construction} (h : c.graph.Unbound)
    (hpush : c.pushAll events = .ok c') : c'.graph.Unbound := by
  induction events generalizing c with
  | nil =>
    cases hpush
    exact h
  | cons e events ih =>
    obtain ⟨d, hd, hrest⟩ := Construction.pushAll_cons_eq_ok.mp hpush
    exact ih (h.push hd) hrest

/-- Nothing leads from a reference to what it denotes. -/
theorem outgoing_eq_nil (h : g.Unbound) (i : Nat) : g.outgoing i Relation.binds = [] := by
  rw [outgoing, List.map_eq_nil_iff, List.filter_eq_nil_iff]
  intro e he
  simp [h e he]

theorem incoming_eq_nil (h : g.Unbound) (w : Nat) : g.incoming w Relation.binds = [] := by
  rw [incoming, List.map_eq_nil_iff, List.filter_eq_nil_iff]
  intro e he
  simp [h e he]

end Unbound

/-- **The graph of a stream is unbound.** -/
theorem unbound_ofEvents {top : Span} {symbols : SymbolTable} {events : List Event} {g : Graph}
    (h : Graph.ofEvents top symbols events = .ok g) : g.Unbound := by
  obtain ⟨c, hc, hg⟩ := Graph.ofEvents_eq_ok h
  have hstart : (Construction.start top symbols).graph.Unbound := by
    intro e he
    cases he
  unfold Construction.finish at hg
  split at hg <;> cases hg
  exact (hstart.pushAll hc).withReferences c.uses

end Graph

/-! ### Several bindings at once -/

/-- The edge that records a binding. -/
def BoundReference.edge (b : BoundReference) : Edge :=
  ⟨b.reference, b.binding.node, b.binding.relation⟩

namespace Graph

/-- What leads from a reference after bindings were added. -/
theorem outgoing_addBindings (g : Graph) (bs : List BoundReference) (i : Nat) :
    ({ g with edges := g.edges ++ bs.map BoundReference.edge } : Graph).outgoing i Relation.binds =
      g.outgoing i Relation.binds ++
        (bs.filter (·.reference == i)).map fun b => b.binding.node := by
  have hfilter : bs.filter ((fun e : Edge => e.source == i && e.kind.binds) ∘ BoundReference.edge) =
      bs.filter (·.reference == i) := by
    refine List.filter_congr fun b _ => ?_
    simp [BoundReference.edge, Binding.binds_relation]
  rw [outgoing, List.filter_append, List.map_append, List.filter_map, hfilter, List.map_map]
  rfl

/-- What leads to a node after bindings were added. -/
theorem incoming_addBindings (g : Graph) (bs : List BoundReference) (w : Nat) :
    ({ g with edges := g.edges ++ bs.map BoundReference.edge } : Graph).incoming w Relation.binds =
      g.incoming w Relation.binds ++
        (bs.filter (·.binding.node == w)).map BoundReference.reference := by
  have hfilter : bs.filter ((fun e : Edge => e.target == w && e.kind.binds) ∘ BoundReference.edge) =
      bs.filter (·.binding.node == w) := by
    refine List.filter_congr fun b _ => ?_
    simp [BoundReference.edge, Binding.binds_relation]
  rw [incoming, List.filter_append, List.map_append, List.filter_map, hfilter, List.map_map]
  rfl

theorem boundTo?_addBinding {g : Graph} {b : BoundReference} {i : Nat} (hne : b.reference ≠ i) :
    ({ g with edges := g.edges ++ [b].map BoundReference.edge } : Graph).boundTo? i =
      g.boundTo? i := by
  rw [boundTo?, outgoing_addBindings]
  simp [hne, boundTo?]

/-- **Bindings of distinct references are recorded**, but for those that are bound already. -/
theorem bindAll_eq : ∀ (bs : List BoundReference) (g : Graph),
    (∀ b ∈ bs, b.reference < g.order ∧ b.binding.node < g.order) →
    (bs.map BoundReference.reference).Nodup →
    ∃ counts, g.bindAll bs = ({ g with edges := g.edges ++
      (bs.filter fun b => (g.boundTo? b.reference).isNone).map BoundReference.edge },
        .ok counts) := by
  intro bs
  induction bs with
  | nil =>
    intro g _ _
    exact ⟨g.bindingCounts, by simp [bindAll]⟩
  | cons b bs ih =>
    intro g hlt hnodup
    rw [List.map_cons, List.nodup_cons] at hnodup
    obtain ⟨hr, hn⟩ := hlt b (List.mem_cons_self ..)
    have hlt' : ∀ b' ∈ bs, b'.reference < g.order ∧ b'.binding.node < g.order :=
      fun b' hb' => hlt b' (List.mem_cons_of_mem _ hb')
    rw [bindAll, bindReference]
    cases hb : g.boundTo? b.reference with
    | some w =>
      obtain ⟨counts, hcounts⟩ := ih g hlt' hnodup.2
      exact ⟨counts, by simpa [hb] using hcounts⟩
    | none =>
      obtain ⟨counts, hcounts⟩ :=
        ih { g with edges := g.edges ++ [b].map BoundReference.edge } hlt' hnodup.2
      -- the other references are other ones, so they stay as they are
      have hrest : ∀ b' ∈ bs, ({ g with edges := g.edges ++ [b].map BoundReference.edge } :
          Graph).boundTo? b'.reference = g.boundTo? b'.reference := by
        intro b' hb'
        refine boundTo?_addBinding fun heq => ?_
        exact hnodup.1 (heq ▸ List.mem_map_of_mem hb')
      rw [List.filter_congr fun b' hb' => congrArg Option.isNone (hrest b' hb')] at hcounts
      exact ⟨counts, by simpa [hb, hr, hn, BoundReference.edge] using hcounts⟩

/-! ### Every reference -/

/-- The bindings of those references that mean something. -/
def meanings (meaning : Nat → Option Binding) (is : List Nat) : List BoundReference :=
  is.filterMap fun i => (meaning i).map fun b => ⟨i, b⟩

section Meanings

variable {meaning : Nat → Option Binding}

theorem mem_meanings {is : List Nat} {b : BoundReference} :
    b ∈ meanings meaning is ↔ b.reference ∈ is ∧ meaning b.reference = some b.binding := by
  rw [meanings, List.mem_filterMap]
  constructor
  · rintro ⟨i, hi, hib⟩
    obtain ⟨x, hx, rfl⟩ := Option.map_eq_some_iff.mp hib
    exact ⟨hi, hx⟩
  · rintro ⟨hi, hb⟩
    exact ⟨b.reference, hi, by rw [hb]; rfl⟩

theorem meanings_sublist : ∀ is : List Nat,
    ((meanings meaning is).map BoundReference.reference).Sublist is := by
  intro is
  induction is with
  | nil => exact .slnil
  | cons i is ih =>
    rw [meanings, List.filterMap_cons]
    cases meaning i with
    | none => exact ih.cons i
    | some b => exact ih.cons_cons i

/-- The references that mean a node. -/
theorem filter_meanings_node {w : Nat} : ∀ is : List Nat,
    ((meanings meaning is).filter (·.binding.node == w)).map BoundReference.reference =
      is.filter fun i => (meaning i).any (·.node == w) := by
  intro is
  induction is with
  | nil => rfl
  | cons i is ih =>
    rw [meanings, List.filterMap_cons, ← meanings, List.filter_cons]
    cases hm : meaning i with
    | none => simpa using ih
    | some b =>
      rw [Option.map_some, Option.any_some, List.filter_cons]
      split
      · rw [List.map_cons, ih]
      · exact ih

/-- A reference has at most the binding that it means. -/
theorem filter_meanings {i : Nat} : ∀ is : List Nat, is.Nodup → i ∈ is →
    ((meanings meaning is).filter (·.reference == i)).map (fun b => b.binding.node) =
      ((meaning i).map Binding.node).toList := by
  intro is
  induction is with
  | nil => intro _ hi; cases hi
  | cons j is ih =>
    intro hnodup hi
    rw [List.nodup_cons] at hnodup
    rw [meanings, List.filterMap_cons]
    by_cases hij : i = j
    · -- the rest is about other references
      have hnone : (meanings meaning is).filter (·.reference == i) = [] := by
        rw [List.filter_eq_nil_iff]
        intro b hb hbi
        rw [beq_iff_eq] at hbi
        exact hnodup.1 (hij ▸ hbi ▸ (mem_meanings.mp hb).1)
      rw [meanings] at hnone
      subst hij
      cases hm : meaning i <;> simp [hnone]
    · have hrest := ih hnodup.2 ((List.mem_cons.mp hi).resolve_left hij)
      rw [meanings] at hrest
      cases hm : meaning j <;> simp [Ne.symm hij, hrest]

/-- References none of which fails to be looked up. -/
theorem resolveEach_eq {g : Graph} : ∀ is : List Nat,
    (∀ i ∈ is, g.bindingFor i = .ok (meaning i)) →
    g.resolveEach is = .ok (meanings meaning is) := by
  intro is
  induction is with
  | nil => intro _; rfl
  | cons i is ih =>
    intro h
    have hi := h i (List.mem_cons_self ..)
    have his := ih fun j hj => h j (List.mem_cons_of_mem _ hj)
    rw [meanings, List.filterMap_cons, ← meanings]
    cases hm : meaning i with
    | none =>
      rw [hm] at hi
      simp [resolveEach, hi, his, bind, Except.bind]
    | some b =>
      rw [hm] at hi
      simp [resolveEach, hi, his, bind, Except.bind, pure, Except.pure]

end Meanings

theorem mem_positions {g : Graph} {p : Node → Bool} {i : Nat} :
    i ∈ g.positions p ↔ ∃ n, g.node? i = some n ∧ p n = true := by
  rw [positions, List.mem_filter, List.mem_range, Option.any_eq_true]
  refine ⟨And.right, fun h => ⟨?_, h⟩⟩
  obtain ⟨n, hn, -⟩ := h
  exact node?_lt hn

theorem nodup_positions (g : Graph) (p : Node → Bool) : (g.positions p).Nodup :=
  List.nodup_range.filter _

theorem mem_references {g : Graph} {i : Nat} :
    i ∈ g.references ↔ ∃ n, g.node? i = some n ∧ n.isReference = true :=
  mem_positions

/-- Resolving an unbound graph adds the bindings of its references, in order. -/
theorem resolve_unbound_eq {g : Graph} (hfree : g.Unbound) {meaning : Nat → Option Binding}
    (hmeaning : ∀ i ∈ g.references, g.bindingFor i = .ok (meaning i))
    (hlt : ∀ i ∈ g.references, ∀ b, meaning i = some b → b.node < g.order) :
    ∃ counts, g.resolve = .ok ({ g with
      edges := g.edges ++ (meanings meaning g.references).map BoundReference.edge }, counts) := by
  have hnodup : g.references.Nodup := g.nodup_positions _
  have hends : ∀ b ∈ meanings meaning g.references,
      b.reference < g.order ∧ b.binding.node < g.order := by
    intro b hb
    obtain ⟨hi, hm⟩ := mem_meanings.mp hb
    obtain ⟨n, hn, -⟩ := mem_references.mp hi
    exact ⟨node?_lt hn, hlt _ hi _ hm⟩
  obtain ⟨counts, hcounts⟩ := bindAll_eq (meanings meaning g.references) g hends
    (hnodup.sublist (meanings_sublist g.references))
  -- no reference is bound already
  have hall : ((meanings meaning g.references).filter fun b => (g.boundTo? b.reference).isNone) =
      meanings meaning g.references := by
    refine List.filter_eq_self.mpr fun b _ => ?_
    rw [boundTo?, hfree.outgoing_eq_nil]
    rfl
  rw [hall] at hcounts
  refine ⟨counts, ?_⟩
  rw [resolve, allBindings, resolveEach_eq g.references hmeaning]
  simp only [bind, Except.bind]
  rw [hcounts]
  rfl

/-- **Resolving an unbound graph binds every reference to what it denotes, and to
nothing else.** -/
theorem resolve_unbound {g : Graph} (hfree : g.Unbound) {meaning : Nat → Option Binding}
    (hmeaning : ∀ i ∈ g.references, g.bindingFor i = .ok (meaning i))
    (hlt : ∀ i ∈ g.references, ∀ b, meaning i = some b → b.node < g.order) :
    ∃ g' counts, g.resolve = .ok (g', counts) ∧ g'.nodes = g.nodes ∧
      ∀ i ∈ g.references,
        g'.outgoing i Relation.binds = ((meaning i).map Binding.node).toList := by
  obtain ⟨counts, hresolve⟩ := resolve_unbound_eq hfree hmeaning hlt
  refine ⟨_, counts, hresolve, rfl, ?_⟩
  intro i hi
  have hnodup : g.references.Nodup := g.nodup_positions _
  rw [outgoing_addBindings, hfree.outgoing_eq_nil, List.nil_append,
    filter_meanings g.references hnodup hi]

/-! ### At most one binding -/

/-- No node has more than one binding. -/
def SingleBindings (g : Graph) : Prop := ∀ i, (g.outgoing i Relation.binds).length ≤ 1

theorem Unbound.singleBindings {g : Graph} (h : g.Unbound) : g.SingleBindings := by
  intro i
  rw [h.outgoing_eq_nil]
  exact Nat.zero_le 1

namespace SingleBindings

variable {g : Graph}

theorem bindReference {g' : Graph} {reference : Nat} {binding : Binding} {new : Bool}
    (h : g.SingleBindings) (hbind : g.bindReference reference binding = .ok (g', new)) :
    g'.SingleBindings := by
  rcases bindReference_cases hbind with rfl | ⟨hfree, rfl⟩
  · exact h
  · intro i
    have hadd := outgoing_addBindings g [⟨reference, binding⟩] i
    rw [List.map_singleton, BoundReference.edge] at hadd
    rw [hadd]
    by_cases hi : reference = i
    · rw [← hi, hfree]
      simp
    · simpa [hi] using h i

theorem bindAll (h : g.SingleBindings) (bs : List BoundReference) :
    (g.bindAll bs).1.SingleBindings := by
  apply bindAll_induction bs g _ h
  intro b _ g' g'' new h' hbind
  exact h'.bindReference hbind

/-- **Both ways to ask for a binding agree**: from the reference and from what it denotes. -/
theorem mem_incoming_iff (h : g.SingleBindings) {i w : Nat} :
    i ∈ g.incoming w Relation.binds ↔ g.boundTo? i = some w := by
  have hends : i ∈ g.incoming w Relation.binds ↔ w ∈ g.outgoing i Relation.binds := by
    rw [mem_incoming, outgoing, List.mem_map]
    simp only [List.mem_filter, Bool.and_eq_true, beq_iff_eq]
    constructor
    · rintro ⟨e, he, hs, ht, hk⟩
      exact ⟨e, ⟨he, hs, hk⟩, ht⟩
    · rintro ⟨e, ⟨he, hs, hk⟩, ht⟩
      exact ⟨e, he, hs, ht, hk⟩
  rw [hends, boundTo?]
  have hone := h i
  cases hout : g.outgoing i Relation.binds with
  | nil => simp
  | cons v vs =>
    rw [hout, List.length_cons] at hone
    obtain rfl : vs = [] := List.eq_nil_of_length_eq_zero (by omega)
    rw [List.mem_singleton, List.head?_cons, Option.some.injEq]
    exact eq_comm

/-- What is bound is bound to a node by an edge. -/
theorem exists_edge (h : g.SingleBindings) {i w : Nat} (hw : g.boundTo? i = some w) :
    ∃ e ∈ g.edges, e.source = i ∧ e.target = w ∧ e.kind.binds = true :=
  mem_incoming.mp (h.mem_incoming_iff.mpr hw)

end SingleBindings

end Graph
end NameBinding
