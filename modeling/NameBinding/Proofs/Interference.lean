import NameBinding.Proofs.Bracketing
import NameBinding.Proofs.Frame
import NameBinding.Proofs.Inventory

/-!
# Names do not interfere

Leave a declaration out of a stream, and all later nodes of its graph move up by one.
Positions decide in two places, between children of a scope that are equally large and
between candidates that start together, but moving up keeps the order of positions.  So
the two graphs agree on every scope and on every reference to another name than that of
the declaration.

## Main definitions

* `Graph.shift` — where a position moves when a node is put in before it.
* `Graph.Inserts` — a graph has one declaration more than another one.
* `Construction.Inserts` — so has a graph under construction.

## Main results

* `Graph.Inserts.smallestScope`, `Graph.Inserts.lookup` — the walk inward and the walk
  outward pass the corresponding scopes.
* `Graph.Inserts.meaning` — references to another name denote the corresponding nodes.
* `Construction.Inserts.push`, `Construction.Inserts.finish` — one event, and the end.
* `resolve_without_declaration` — **a declaration of one name has no influence on the
  references to another one.**
-/

namespace NameBinding
namespace Graph

/-! ### Moving positions -/

/-- Where the position `i` moves when a node is put in at `p`. -/
def shift (p i : Nat) : Nat := if i < p then i else i + 1

section Shift

variable {p i j : Nat}

theorem shift_of_lt (h : i < p) : shift p i = i := if_pos h

theorem shift_of_le (h : p ≤ i) : shift p i = i + 1 := if_neg (by omega)

theorem shift_le_shift : shift p i ≤ shift p j ↔ i ≤ j := by
  unfold shift
  split <;> split <;> omega

theorem shift_lt_shift : shift p i < shift p j ↔ i < j := by
  unfold shift
  split <;> split <;> omega

theorem shift_inj : shift p i = shift p j ↔ i = j := by
  unfold shift
  split <;> split <;> omega

theorem shift_ne (p i : Nat) : shift p i ≠ p := by
  unfold shift
  split <;> omega

theorem le_shift (p i : Nat) : i ≤ shift p i := by
  unfold shift
  split <;> omega

theorem exists_shift (h : i ≠ p) : ∃ j, i = shift p j := by
  by_cases hlt : i < p
  · exact ⟨i, (shift_of_lt hlt).symm⟩
  · exact ⟨i - 1, by rw [shift_of_le (by omega)]; omega⟩

end Shift

/-! ### A declaration more -/

/-- The graph `g'` is `g` with the declaration `d` put in at `p`: all other nodes and
their edges moved, and the only new edge attaches the declaration. -/
structure Inserts (p : Nat) (d : Node) (g g' : Graph) : Prop where
  root_lt : root < p
  le_order : p ≤ g.order
  order : g'.order = g.order + 1
  node?_shift : ∀ i, g'.node? (shift p i) = g.node? i
  node?_inserted : g'.node? p = some d
  declares : d.declaresName = true
  edge_shift : ∀ s t kind,
    (⟨shift p s, shift p t, kind⟩ : Edge) ∈ g'.edges ↔ (⟨s, t, kind⟩ : Edge) ∈ g.edges
  edge_cases : ∀ e ∈ g'.edges, (e.source = p ∧ e.kind.declares = true) ∨
    ∃ s t, e.source = shift p s ∧ e.target = shift p t

namespace Inserts

variable {top : Span} {p : Nat} {d : Node} {g g' : Graph}

theorem shift_root (h : g.Inserts p d g') : shift p root = root := shift_of_lt h.root_lt

theorem shift_order (h : g.Inserts p d g') : shift p g.order = g'.order := by
  rw [shift_of_le h.le_order, h.order]

theorem spanOf_shift (h : g.Inserts p d g') (i : Nat) : g'.spanOf (shift p i) = g.spanOf i := by
  rw [spanOf, h.node?_shift, ← spanOf]

theorem startOf_shift (h : g.Inserts p d g') (i : Nat) :
    g'.startOf (shift p i) = g.startOf i := by
  rw [startOf, h.spanOf_shift, ← startOf]

theorem width_shift (h : g.Inserts p d g') (i : Nat) : g'.width (shift p i) = g.width i := by
  rw [width, h.spanOf_shift, ← width]

/-- An edge to a scope that was there belongs to the declaration or was there too. -/
theorem of_edge (h : g.Inserts p d g') {w t : Nat} {kind : Relation}
    (he : (⟨w, shift p t, kind⟩ : Edge) ∈ g'.edges) :
    (w = p ∧ kind.declares = true) ∨
      ∃ s, w = shift p s ∧ (⟨s, t, kind⟩ : Edge) ∈ g.edges := by
  rcases h.edge_cases _ he with hnew | ⟨s, t', hs, ht⟩
  · exact Or.inl hnew
  · simp only at hs ht
    obtain rfl := shift_inj.mp ht
    rw [hs] at he
    exact Or.inr ⟨s, hs, (h.edge_shift s t kind).mp he⟩

/-- The declaration is no scope, so every child of a scope was there. -/
theorem of_isChild (h : g.Inserts p d g') {scope child : Nat}
    (hc : g'.IsChild (shift p scope) child) :
    ∃ c, child = shift p c ∧ g.IsChild scope c := by
  rcases h.of_edge hc with ⟨-, hkind⟩ | hold
  · cases hkind
  · exact hold

theorem isChild_shift (h : g.Inserts p d g') {scope child : Nat} :
    g'.IsChild (shift p scope) (shift p child) ↔ g.IsChild scope child :=
  h.edge_shift child scope .scopeToScope

/-! ### Growing both graphs -/

/-- A declaration at the end is put in at the end. -/
theorem of_addInside (hg : g.Structured top) (hfree : g.Unbound) {kind : Relation} (scope : Nat)
    (hd : d.declaresName = true) (hkind : kind.declares = true) :
    g.Inserts g.order d (g.addInside d kind scope) where
  root_lt := hg.root_lt
  le_order := Nat.le_refl _
  order := order_addInside ..
  node?_shift i := by
    rw [node?_addInside, if_neg (shift_ne _ i)]
    by_cases hi : i < g.order
    · rw [shift_of_lt hi]
    · have hlen : g.nodes.length ≤ i := Nat.le_of_not_lt hi
      rw [shift_of_le (Nat.le_of_not_lt hi), node?, node?, List.getElem?_eq_none (by omega),
        List.getElem?_eq_none hlen]
  node?_inserted := by rw [node?_addInside, if_pos rfl]
  declares := hd
  edge_shift s t kind' := by
    -- both ends of an edge that was there lie before the new node
    have hlt : ∀ e ∈ g.edges, e.source < g.order ∧ e.target < g.order :=
      fun e he => hg.edge_lt he (hfree e he)
    rw [edges_addInside, List.mem_append, List.mem_singleton]
    constructor
    · rintro (he | he)
      · obtain ⟨hs, ht⟩ := hlt _ he
        have hs' := Nat.lt_of_le_of_lt (le_shift g.order s) hs
        have ht' := Nat.lt_of_le_of_lt (le_shift g.order t) ht
        rwa [shift_of_lt hs', shift_of_lt ht'] at he
      · exact absurd (congrArg Edge.source he) (shift_ne _ s)
    · intro he
      obtain ⟨hs, ht⟩ := hlt _ he
      rw [shift_of_lt hs, shift_of_lt ht]
      exact Or.inl he
  edge_cases e he := by
    rw [edges_addInside, List.mem_append, List.mem_singleton] at he
    rcases he with he | rfl
    · obtain ⟨hs, ht⟩ := hg.edge_lt he (hfree e he)
      exact Or.inr ⟨e.source, e.target, (shift_of_lt hs).symm, (shift_of_lt ht).symm⟩
    · exact Or.inl ⟨rfl, hkind⟩

/-- The same node is added to both graphs. -/
theorem addInside (h : g.Inserts p d g') (n : Node) (kind : Relation) (scope : Nat) :
    (g.addInside n kind scope).Inserts p d (g'.addInside n kind (shift p scope)) where
  root_lt := h.root_lt
  le_order := by
    rw [order_addInside]
    have := h.le_order
    omega
  order := by rw [order_addInside, order_addInside, h.order]
  node?_shift i := by
    rw [node?_addInside, node?_addInside, h.node?_shift, ← h.shift_order]
    simp only [shift_inj]
  node?_inserted := by
    have hlt : p < g'.order := node?_lt h.node?_inserted
    rw [node?_addInside_of_lt hlt, h.node?_inserted]
  declares := h.declares
  edge_shift s t kind' := by
    simp only [edges_addInside, List.mem_append, List.mem_singleton, h.edge_shift,
      Edge.mk.injEq, ← h.shift_order, shift_inj]
  edge_cases e he := by
    rw [edges_addInside, List.mem_append, List.mem_singleton] at he
    rcases he with he | rfl
    · exact h.edge_cases e he
    · exact Or.inr ⟨g.order, scope, h.shift_order.symm, rfl⟩

/-- The same reference is added to both graphs. -/
theorem withReference (h : g.Inserts p d g') (span : Span) (name : String)
    (symbol : Option SymbolIndex) :
    (g.withReference span name symbol).Inserts p d (g'.withReference span name symbol) where
  root_lt := h.root_lt
  le_order := by
    have := h.le_order
    simp only [Graph.withReference, Graph.order, List.length_append, List.length_singleton] at *
    omega
  order := by
    have := h.order
    simp only [Graph.withReference, Graph.order, List.length_append, List.length_singleton] at *
    omega
  node?_shift i := by
    rw [node?_withReference, node?_withReference, h.node?_shift, ← h.shift_order]
    simp only [shift_inj]
  node?_inserted := by
    have hlt : p < g'.order := node?_lt h.node?_inserted
    rw [node?_withReference_of_lt hlt, h.node?_inserted]
  declares := h.declares
  edge_shift := h.edge_shift
  edge_cases := h.edge_cases

theorem withReferences (h : g.Inserts p d g') (rs : List PendingReference) :
    (rs.foldl (fun g r => g.withReference r.span r.name r.symbol) g).Inserts p d
      (rs.foldl (fun g r => g.withReference r.span r.name r.symbol) g') := by
  induction rs generalizing g g' with
  | nil => exact h
  | cons r rs ih => exact ih (h.withReference r.span r.name r.symbol)

/-! ### Scopes -/

theorem parent_shift (h : g.Inserts p d g') (hg : g.Structured top) (hg' : g'.Structured top)
    {scope outer : Nat} (hp : g.parent scope = .ok (some outer)) :
    g'.parent (shift p scope) = .ok (some (shift p outer)) :=
  hg'.parent_eq_ok_iff.mpr ((h.edge_shift ..).mpr (hg.parent_eq_ok_iff.mp hp))

theorem outerScope?_shift (h : g.Inserts p d g') (hg : g.Structured top)
    (hg' : g'.Structured top) {scope : Nat} {s : Span} (hs : g.node? scope = some (.scope s)) :
    g'.outerScope? (shift p scope) = (g.outerScope? scope).map (shift p) := by
  by_cases hroot : scope = root
  · rw [hroot, h.shift_root, outerScope?, outerScope?, hg'.parent_root, hg.parent_root]
    rfl
  · obtain ⟨outer, houter⟩ := hg.exists_parent hroot hs
    rw [outerScope?, outerScope?, h.parent_shift hg hg' houter, houter]
    rfl

/-- Siblings have different spans, so the child with a span is the corresponding one. -/
theorem scopeWithSpan?_shift (h : g.Inserts p d g') (hg : g.Structured top) (outer : Nat)
    (span : Span) :
    g'.scopeWithSpan? (shift p outer) span = (g.scopeWithSpan? outer span).map (shift p) := by
  cases hchild : g.scopeWithSpan? outer span with
  | none =>
    have hnone := Construction.scopeWithSpan?_eq_none hchild
    cases hchild' : g'.scopeWithSpan? (shift p outer) span with
    | none => rfl
    | some child' =>
      obtain ⟨hedge, hspan⟩ := Construction.scopeWithSpan?_eq_some hchild'
      obtain ⟨c, rfl, hc⟩ := h.of_isChild hedge
      rw [h.spanOf_shift] at hspan
      exact absurd hspan (hnone _ hc rfl rfl)
  | some child =>
    obtain ⟨hedge, hspan⟩ := Construction.scopeWithSpan?_eq_some hchild
    cases hchild' : g'.scopeWithSpan? (shift p outer) span with
    | none =>
      have hnone :=
        Construction.scopeWithSpan?_eq_none hchild' _ (h.isChild_shift.mpr hedge) rfl rfl
      exact absurd (by rw [h.spanOf_shift, hspan]) hnone
    | some child' =>
      obtain ⟨hedge', hspan'⟩ := Construction.scopeWithSpan?_eq_some hchild'
      obtain ⟨c, rfl, hc⟩ := h.of_isChild hedge'
      rw [h.spanOf_shift] at hspan'
      by_cases hsame : c = child
      · rw [hsame, Option.map_some]
      · exact absurd (hspan'.trans hspan.symm) (hg.siblings_ne _ hc _ hedge rfl rfl rfl hsame)

theorem closestChild_shift (h : g.Inserts p d g') {scope child : Nat} {span : Span}
    (hc : g.ClosestChild scope span child) :
    g'.ClosestChild (shift p scope) span (shift p child) where
  isChild := h.isChild_shift.mpr hc.isChild
  contains := by rw [h.spanOf_shift, hc.contains]
  least := by
    intro other hother hcontains
    obtain ⟨o, rfl, ho⟩ := h.of_isChild hother
    rw [h.spanOf_shift] at hcontains
    rw [h.width_shift, h.width_shift, shift_le_shift]
    exact hc.least o ho hcontains

theorem descendsTo_shift (h : g.Inserts p d g') {span : Span} {scope last : Nat}
    (hdesc : g.DescendsTo span scope last) :
    g'.DescendsTo span (shift p scope) (shift p last) := by
  induction hdesc with
  | stay hall =>
    refine .stay fun child hchild => ?_
    obtain ⟨c, rfl, hc⟩ := h.of_isChild hchild
    rw [h.spanOf_shift]
    exact hall c hc
  | step hclosest _ ih => exact .step (h.closestChild_shift hclosest) ih

end Inserts

/-- There is only one closest child. -/
theorem ClosestChild.unique {g : Graph} {scope a b : Nat} {span : Span}
    (ha : g.ClosestChild scope span a) (hb : g.ClosestChild scope span b) : a = b := by
  have hab := ha.least b hb.isChild hb.contains
  have hba := hb.least a ha.isChild ha.contains
  omega

/-- The descent ends at one place. -/
theorem DescendsTo.unique {g : Graph} {span : Span} {scope a b : Nat}
    (ha : g.DescendsTo span scope a) (hb : g.DescendsTo span scope b) : a = b := by
  induction ha with
  | stay hall =>
    cases hb with
    | stay _ => rfl
    | step hclosest _ =>
      have hno := hall _ hclosest.isChild
      rw [hclosest.contains] at hno
      cases hno
  | step hclosest _ ih =>
    cases hb with
    | stay hall =>
      have hno := hall _ hclosest.isChild
      rw [hclosest.contains] at hno
      cases hno
    | step hclosest' hrest' =>
      obtain rfl := hclosest.unique hclosest'
      exact ih hrest'

/-- Only one candidate is meant. -/
theorem Meant.unique {g : Graph} {start a b : Nat} {P : Nat → Prop} (ha : g.Meant start P a)
    (hb : g.Meant start P b) : a = b := by
  by_cases hbefore : ∃ c, P c ∧ g.startOf c ≤ start
  · obtain ⟨hsa, hla⟩ := ha.before hbefore
    obtain ⟨hsb, hlb⟩ := hb.before hbefore
    have hab := hla b hb.candidate hsb
    have hba := hlb a ha.candidate hsa
    omega
  · have hafter : ∀ c, P c → start < g.startOf c := by
      intro c hc
      exact Nat.lt_of_not_le fun hle => hbefore ⟨c, hc, hle⟩
    have hab := ha.after hafter b hb.candidate
    have hba := hb.after hafter a ha.candidate
    omega

namespace Inserts

variable {top : Span} {p : Nat} {d : Node} {g g' : Graph}

/-- **The walk inward ends in the corresponding scope.** -/
theorem smallestScope (h : g.Inserts p d g') (hg : g.Structured top) (hg' : g'.Structured top)
    (ho : g.ScopesOrdered) (ho' : g'.ScopesOrdered) (span : Span) :
    ∃ last s, g.smallestScope span = .ok last ∧ g.node? last = some (.scope s) ∧
      g'.smallestScope span = .ok (shift p last) := by
  obtain ⟨last, hlast, hdesc⟩ := hg.smallestScope_eq_ok ho span
  obtain ⟨last', hlast', hdesc'⟩ := hg'.smallestScope_eq_ok ho' span
  obtain ⟨s, hs⟩ := hdesc.scope_last hg ⟨top, hg.node?_root⟩
  have hsame : shift p last = last' := by
    have hmoved := h.descendsTo_shift hdesc
    rw [h.shift_root] at hmoved
    exact hmoved.unique hdesc'
  exact ⟨last, s, hlast, hs, by rw [hlast', hsame]⟩

/-! ### References -/

/-- The declaration is no candidate for another name, and all others were there. -/
theorem candidate_iff (h : g.Inserts p d g') {name : String} (hname : d.name? ≠ some name)
    {scope w : Nat} {symbol : Option SymbolIndex} :
    g'.Candidate (shift p scope) name symbol w ↔
      ∃ v, w = shift p v ∧ g.Candidate scope name symbol v := by
  simp only [Candidate]
  by_cases hw : w = p
  · subst hw
    simp only [h.node?_inserted]
    refine iff_of_false ?_ ?_
    · rintro (⟨span, actual, hd, -⟩ | ⟨span, hd, -⟩) <;> cases hd <;> exact hname rfl
    · rintro ⟨v, hv, -⟩
      exact shift_ne w v hv.symm
  · obtain ⟨v, rfl⟩ := exists_shift hw
    simp only [h.node?_shift, h.edge_shift, shift_inj, exists_eq_left']

theorem meant_shift (h : g.Inserts p d g') {name : String} (hname : d.name? ≠ some name)
    {scope start w : Nat} {symbol : Option SymbolIndex}
    (hw : g.Meant start (g.Candidate scope name symbol) w) :
    g'.Meant start (g'.Candidate (shift p scope) name symbol) (shift p w) := by
  have hcand : ∀ c, g'.Candidate (shift p scope) name symbol c →
      ∃ v, c = shift p v ∧ g.Candidate scope name symbol v := fun c => (h.candidate_iff hname).mp
  refine ⟨(h.candidate_iff hname).mpr ⟨w, rfl, hw.candidate⟩, ?_, ?_⟩
  · rintro ⟨c, hc, hle⟩
    obtain ⟨v, rfl, hv⟩ := hcand c hc
    rw [h.startOf_shift] at hle
    obtain ⟨hstart, hlast⟩ := hw.before ⟨v, hv, hle⟩
    rw [h.startOf_shift]
    refine ⟨hstart, fun c' hc' hle' => ?_⟩
    obtain ⟨v', rfl, hv'⟩ := hcand c' hc'
    rw [h.startOf_shift] at hle' ⊢
    rw [shift_le_shift]
    exact hlast v' hv' hle'
  · intro hall c hc
    obtain ⟨v, rfl, hv⟩ := hcand c hc
    rw [h.startOf_shift, h.startOf_shift, shift_le_shift]
    refine hw.after (fun c' hc' => ?_) v hv
    rw [← h.startOf_shift]
    exact hall _ ((h.candidate_iff hname).mpr ⟨c', rfl, hc'⟩)

/-- One scope of the walk outward: it has a candidate in both graphs or in none. -/
theorem lookup_succ (h : g.Inserts p d g') (hg : g.Structured top) (hg' : g'.Structured top)
    (span : Span) {name : String} (hname : d.name? ≠ some name) (symbol : Option SymbolIndex)
    (scope n m : Nat) :
    (g.lookup span name symbol (n + 1) scope = (do
        match ← g.parent scope with
        | some outer => g.lookup span name symbol n outer
        | none => return none) ∧
      g'.lookup span name symbol (m + 1) (shift p scope) = (do
        match ← g'.parent (shift p scope) with
        | some outer => g'.lookup span name symbol m outer
        | none => return none)) ∨
    ∃ w, g.lookup span name symbol (n + 1) scope = .ok (some (g.bindingTo w)) ∧
      g'.lookup span name symbol (m + 1) (shift p scope) =
        .ok (some (g'.bindingTo (shift p w))) := by
  rcases hg.lookup_succ span name symbol scope n with ⟨heq, hnone⟩ | ⟨w, hw, heq⟩ <;>
    rcases hg'.lookup_succ span name symbol (shift p scope) m with
      ⟨heq', hnone'⟩ | ⟨w', hw', heq'⟩
  · exact Or.inl ⟨heq, heq'⟩
  · obtain ⟨v, -, hv⟩ := (h.candidate_iff hname).mp hw'.candidate
    exact absurd hv (hnone v)
  · exact absurd (h.meant_shift hname hw).candidate (hnone' _)
  · obtain rfl := (h.meant_shift hname hw).unique hw'
    exact Or.inr ⟨w, heq, heq'⟩

/-- **The walk outward finds the corresponding node**, or nothing in both graphs. -/
theorem lookup (h : g.Inserts p d g') (hg : g.Structured top) (hg' : g'.Structured top)
    (span : Span) {name : String} (hname : d.name? ≠ some name) (symbol : Option SymbolIndex)
    {scope : Nat} {chain : List Nat} (hout : g.Outward scope chain) :
    ∀ n m, scope < n → shift p scope < m →
      (g.lookup span name symbol n scope = .ok none ∧
        g'.lookup span name symbol m (shift p scope) = .ok none) ∨
      ∃ w, g.lookup span name symbol n scope = .ok (some (g.bindingTo w)) ∧
        g'.lookup span name symbol m (shift p scope) = .ok (some (g'.bindingTo (shift p w))) := by
  induction hout with
  | root =>
    intro n m hn hm
    obtain ⟨n, rfl⟩ : ∃ k, n = k + 1 := ⟨n - 1, by omega⟩
    obtain ⟨m, rfl⟩ : ∃ k, m = k + 1 := ⟨m - 1, by omega⟩
    rcases h.lookup_succ hg hg' span hname symbol root n m with ⟨heq, heq'⟩ | hfound
    · rw [hg.parent_root] at heq
      rw [h.shift_root, hg'.parent_root] at heq'
      rw [h.shift_root]
      exact Or.inl ⟨heq, heq'⟩
    · exact Or.inr hfound
  | @step scope outer rest hparent hrest ih =>
    intro n m hn hm
    obtain ⟨n, rfl⟩ : ∃ k, n = k + 1 := ⟨n - 1, by omega⟩
    obtain ⟨m, rfl⟩ : ∃ k, m = k + 1 := ⟨m - 1, by omega⟩
    have hlt := (hg.of_parent hparent).1
    have hlt' : shift p outer < shift p scope := shift_lt_shift.mpr hlt
    rcases h.lookup_succ hg hg' span hname symbol scope n m with ⟨heq, heq'⟩ | hfound
    · rw [heq, heq', hparent, h.parent_shift hg hg' hparent]
      exact ih n m (by omega) (by omega)
    · exact Or.inr hfound

/-- **References to another name denote the corresponding nodes.** -/
theorem meaning (h : g.Inserts p d g') (hg : g.Structured top) (hg' : g'.Structured top)
    (ho : g.ScopesOrdered) (ho' : g'.ScopesOrdered) {r : Nat} {span : Span} {name : String}
    {symbol : Option SymbolIndex} (hr : g.node? r = some (.reference span name symbol))
    (hname : d.name? ≠ some name) :
    (g'.meaning (shift p r)).map Binding.node =
      ((g.meaning r).map Binding.node).map (shift p) := by
  obtain ⟨last, s, hlast, hs, hlast'⟩ := h.smallestScope hg hg' ho ho' span
  obtain ⟨chain, hout⟩ := hg.exists_outward last ⟨s, hs⟩
  have hlt : last < g.order := node?_lt hs
  have hlt' : shift p last < g'.order := by rw [← h.shift_order, shift_lt_shift]; exact hlt
  have hr' : g'.node? (shift p r) = some (.reference span name symbol) := by
    rw [h.node?_shift, hr]
  unfold Graph.meaning
  rw [bindingFor_eq_lookup hr hlast, bindingFor_eq_lookup hr' hlast']
  rcases h.lookup hg hg' span hname symbol hout g.order g'.order hlt hlt' with
    ⟨heq, heq'⟩ | ⟨w, heq, heq'⟩
  · rw [heq, heq']
    rfl
  · rw [heq, heq']
    show some (g'.bindingTo (shift p w)).node = some (shift p (g.bindingTo w).node)
    rw [node_bindingTo, node_bindingTo]

/-- The references are the corresponding ones, in the same order. -/
theorem references (h : g.Inserts p d g') : g'.references = g.references.map (shift p) := by
  have hsorted : ∀ g : Graph, g.references.Pairwise (· < ·) :=
    fun g => List.pairwise_lt_range.filter _
  have hnode : d.isReference = false := by
    have hd := h.declares
    cases d <;> first | rfl | cases hd
  have hmem : ∀ i, i ∈ g'.references ↔ i ∈ g.references.map (shift p) := by
    intro i
    by_cases hi : i = p
    · subst hi
      refine iff_of_false ?_ ?_
      · intro hmem
        obtain ⟨n, hn, href⟩ := mem_references.mp hmem
        rw [h.node?_inserted] at hn
        cases hn
        rw [hnode] at href
        cases href
      · intro hmem
        obtain ⟨j, -, hj⟩ := List.mem_map.mp hmem
        exact shift_ne i j hj
    · obtain ⟨j, rfl⟩ := exists_shift hi
      rw [mem_references, h.node?_shift, ← mem_references, List.mem_map]
      simp only [shift_inj, exists_eq_right]
  have hmoved : (g.references.map (shift p)).Pairwise (· < ·) :=
    List.pairwise_map.mpr ((hsorted g).imp shift_lt_shift.mpr)
  refine List.Perm.eq_of_pairwise (fun a b _ _ hab hba => ?_) (hsorted g') hmoved
    ((List.perm_ext_iff_of_nodup ?_ ?_).mpr hmem)
  · omega
  · exact (hsorted g').imp Nat.ne_of_lt
  · exact hmoved.imp Nat.ne_of_lt

end Inserts
end Graph

/-! ### Events -/

theorem Event.of_declaration? {symbols : SymbolTable} {e : Event} {n : Node}
    (h : e.declaration? symbols = some n) : e.isBracket = false ∧ e.span = n.span := by
  cases e <;> cases h <;> exact ⟨rfl, rfl⟩

theorem Event.of_use? {symbols : SymbolTable} {e : Event} {r : PendingReference}
    (h : e.use? symbols = some r) : e.isBracket = false ∧ e.span = r.span := by
  cases e <;> cases h
  exact ⟨rfl, rfl⟩

namespace Construction

open NameBinding.Graph

/-- The construction `c'` has one declaration more than `c`, and its scopes are opened in
the same way. -/
structure Inserts (p : Nat) (d : Node) (c c' : Construction) : Prop where
  graph : c.graph.Inserts p d c'.graph
  symbols : c'.symbols = c.symbols
  opened : c'.opened = c.opened.map (shift p)
  bound : ∀ s, s ≠ d.span → (s ∈ c'.bound ↔ s ∈ c.bound)
  pending : c'.pending = c.pending

namespace Inserts

variable {top : Span} {p : Nat} {d : Node} {c c' : Construction}

theorem enclosingOpen (h : c.Inserts p d c') (span : Span) :
    c'.enclosingOpen span = shift p (c.enclosingOpen span) := by
  have hsame : ((fun i => (c'.graph.node? i).any (·.span.contains span)) ∘ shift p) =
      fun i => (c.graph.node? i).any (·.span.contains span) := by
    funext i
    rw [Function.comp, h.graph.node?_shift]
  rw [Construction.enclosingOpen, Construction.enclosingOpen, h.opened, List.find?_map, hsame]
  cases c.opened.find? fun i => (c.graph.node? i).any (·.span.contains span) with
  | none => exact h.graph.shift_root.symm
  | some i => rfl

theorem homeOf (h : c.Inserts p d c') (hc : c.Sound top) (hc' : c'.Sound top) (span : Span)
    (scoping : Scoping) : c'.homeOf span scoping = shift p (c.homeOf span scoping) := by
  cases scoping with
  | localScope => exact h.enclosingOpen span
  | globalScope => exact h.graph.shift_root.symm
  | hoisted =>
    obtain ⟨s, hs, -⟩ := hc.enclosingOpen span
    rw [Construction.homeOf, Construction.homeOf, h.enclosingOpen,
      h.graph.outerScope?_shift hc.structured hc'.structured hs]
    cases c.graph.outerScope? (c.enclosingOpen span) with
    | none => exact h.graph.shift_root.symm
    | some outer => rfl

theorem openScope (h : c.Inserts p d c') (hc : c.Sound top) (span : Span) :
    (c.openScope span).Inserts p d (c'.openScope span) := by
  unfold Construction.openScope
  simp only [h.enclosingOpen, h.graph.node?_shift,
    h.graph.scopeWithSpan?_shift hc.structured (c.enclosingOpen span) span]
  split
  · -- the parent itself is opened again
    exact ⟨h.graph, h.symbols, by simp [h.opened], h.bound, h.pending⟩
  · cases c.graph.scopeWithSpan? (c.enclosingOpen span) span with
    | some child => exact ⟨h.graph, h.symbols, by simp [h.opened], h.bound, h.pending⟩
    | none =>
      exact ⟨h.graph.addInside .., h.symbols, by simp [h.opened, h.graph.shift_order], h.bound,
        h.pending⟩

/-- The same declaration is made in both. -/
theorem declare (h : c.Inserts p d c') (n : Node) (kind : Relation) (scope : Nat) :
    ({ c with graph := c.graph.addInside n kind scope, bound := n.span :: c.bound } :
        Construction).Inserts p d
      { c' with graph := c'.graph.addInside n kind (shift p scope), bound := n.span :: c'.bound }
    where
  graph := h.graph.addInside n kind scope
  symbols := h.symbols
  opened := h.opened
  bound s hs := by simp only [List.mem_cons, h.bound s hs]
  pending := h.pending

/-- **One event is taken in alike**, unless it names something at the span of the
declaration. -/
theorem push (h : c.Inserts p d c') (hc : c.Sound top) (hc' : c'.Sound top) {e : Event}
    {f' : Construction} (hspan : e.isBracket = false → e.span ≠ d.span)
    (hpush : c'.push e = .ok f') : ∃ f, c.push e = .ok f ∧ f.Inserts p d f' := by
  cases e with
  | scopeStart span =>
    cases hpush
    exact ⟨_, rfl, h.openScope hc span⟩
  | scopeEnd span =>
    rw [Construction.push, h.opened] at hpush
    cases ho : c.opened with
    | nil => rw [ho] at hpush; cases hpush
    | cons i rest =>
      rw [ho] at hpush
      cases hpush
      exact ⟨{ c with opened := rest }, by rw [Construction.push, ho],
        h.graph, h.symbols, rfl, h.bound, h.pending⟩
  | definition span text scoping symbol =>
    have hbound := h.bound span (hspan rfl)
    rw [Construction.push] at hpush ⊢
    by_cases hmem : span ∈ c.bound
    · rw [if_pos (hbound.mpr hmem)] at hpush
      cases hpush
      exact ⟨c, if_pos hmem, h⟩
    · have hsymbol : c'.classify symbol = c.classify symbol := by
        rw [classify, classify, h.symbols]
      rw [if_neg (fun hm => hmem (hbound.mp hm)), hsymbol, h.homeOf hc hc' span scoping] at hpush
      cases hpush
      exact ⟨_, if_neg hmem, h.declare (.definition span text _) _ _⟩
  | imported span text =>
    have hbound := h.bound span (hspan rfl)
    rw [Construction.push] at hpush ⊢
    by_cases hmem : span ∈ c.bound
    · rw [if_pos (hbound.mpr hmem)] at hpush
      cases hpush
      exact ⟨c, if_pos hmem, h⟩
    · rw [if_neg (fun hm => hmem (hbound.mp hm)), h.enclosingOpen] at hpush
      cases hpush
      exact ⟨_, if_neg hmem, h.declare (.imported span text) _ _⟩
  | reference span text symbol =>
    cases hpush
    exact ⟨_, rfl, h.graph, h.symbols, h.opened, h.bound,
      by simp only [h.pending, classify, h.symbols]⟩

/-- **A stream is taken in alike**, unless it names something at the span of the
declaration. -/
theorem pushAll {events : List Event} : ∀ {c c' : Construction}, c.Inserts p d c' →
    c.Sound top → c'.Sound top → (∀ e ∈ events, e.isBracket = false → e.span ≠ d.span) →
    ∀ {f' : Construction}, c'.pushAll events = .ok f' →
      ∃ f, c.pushAll events = .ok f ∧ f.Inserts p d f' := by
  induction events with
  | nil =>
    intro c c' h _ _ _ f' hpush
    cases hpush
    exact ⟨c, rfl, h⟩
  | cons e events ih =>
    intro c c' h hc hc' hspans f' hpush
    obtain ⟨m', hm', hrest'⟩ := pushAll_cons_eq_ok.mp hpush
    obtain ⟨m, hm, hins⟩ := h.push hc hc' (hspans e List.mem_cons_self) hm'
    obtain ⟨f, hf, hins'⟩ := ih hins (hc.push hm) (hc'.push hm')
      (fun e he => hspans e (List.mem_cons_of_mem _ he)) hrest'
    exact ⟨f, pushAll_cons_eq_ok.mpr ⟨m, hm, hf⟩, hins'⟩

/-- **Both are finished alike**, unless a reference has the span of the declaration. -/
theorem finish (h : c.Inserts p d c') (hspans : ∀ r ∈ c.pending, r.span ≠ d.span) {g' : Graph}
    (hg' : c'.finish = .ok g') : ∃ g, c.finish = .ok g ∧ g.Inserts p d g' := by
  have huses : c'.uses = c.uses := by
    rw [uses, uses, h.pending]
    refine List.filter_congr fun r hr => ?_
    simp only [h.bound r.span (hspans r hr)]
  unfold Construction.finish at hg' ⊢
  rw [h.opened, List.isEmpty_map, huses] at hg'
  split at hg'
  · next hopened =>
    cases hg'
    exact ⟨_, if_pos hopened, h.graph.withReferences c.uses⟩
  · cases hg'

end Inserts

/-- A declaration at a span that declares nothing yet is put in at the end. -/
theorem inserts_push {top : Span} {c c' : Construction} {e : Event} {d : Node}
    (hc : c.Sound top) (hfree : c.graph.Unbound) (he : e.declaration? c.symbols = some d)
    (hbound : d.span ∉ c.bound) (hpush : c.push e = .ok c') :
    c.Inserts c.graph.order d c' := by
  have hopened : c.opened = c.opened.map (shift c.graph.order) := by
    have hfixed : ∀ i ∈ c.opened, shift c.graph.order i = id i := by
      intro i hi
      obtain ⟨s, hs⟩ := hc.opened i hi
      exact shift_of_lt (node?_lt hs)
    rw [List.map_congr_left hfixed, List.map_id]
  have hmem : ∀ s, s ≠ d.span → (s ∈ d.span :: c.bound ↔ s ∈ c.bound) := by
    intro s hs
    simp [hs]
  cases e with
  | definition span text scoping symbol =>
    cases he
    rw [push, if_neg (show span ∉ c.bound from hbound)] at hpush
    cases hpush
    exact ⟨.of_addInside hc.structured hfree _ rfl rfl, rfl, hopened, hmem, rfl⟩
  | imported span text =>
    cases he
    rw [push, if_neg (show span ∉ c.bound from hbound)] at hpush
    cases hpush
    exact ⟨.of_addInside hc.structured hfree _ rfl rfl, rfl, hopened, hmem, rfl⟩
  | scopeStart | scopeEnd | reference => cases he

end Construction

namespace Graph

/-- The graph of a stream can be resolved, and then its references are bound to what they
denote. -/
theorem resolve_ofEvents {top : Span} {symbols : SymbolTable} {events : List Event} {g : Graph}
    (hg : Graph.ofEvents top symbols events = .ok g) (ho : g.ScopesOrdered) :
    ∃ r counts, g.resolve = .ok (r, counts) ∧ g.Extends r ∧
      ∀ i ∈ g.references, r.boundTo? i = (g.meaning i).map Binding.node := by
  have hok : ∀ i ∈ g.references, g.bindingFor i = .ok (g.meaning i) ∧
      ∀ b, g.meaning i = some b → b.node < g.order :=
    fun i hi => (structured_ofEvents hg).bindingFor_eq_ok ho hi
  obtain ⟨r, counts, hresolve, -, hbound⟩ := resolve_unbound (unbound_ofEvents hg)
    (fun i hi => (hok i hi).1) fun i hi => (hok i hi).2
  refine ⟨r, counts, hresolve, extends_resolve hresolve, fun i hi => ?_⟩
  rw [boundTo?, hbound i hi]
  cases g.meaning i <;> rfl

/-- An accepted stream is accepted without a declaration, if nothing else is named at the
span of that declaration, and the graph has one declaration less. -/
theorem ofEvents_inserts {top : Span} {symbols : SymbolTable} {before after : List Event}
    {e : Event} {d : Node} {g' : Graph} (he : e.declaration? symbols = some d)
    (hspans : ∀ f ∈ before ++ after, f.isBracket = false → f.span ≠ d.span)
    (hg' : Graph.ofEvents top symbols (before ++ e :: after) = .ok g') :
    ∃ p g, Graph.ofEvents top symbols (before ++ after) = .ok g ∧ g.Inserts p d g' := by
  obtain ⟨c', hpush, hfinish⟩ := Graph.ofEvents_eq_ok hg'
  obtain ⟨m, hm, hrest⟩ := Construction.pushAll_append_eq_ok.mp hpush
  obtain ⟨m', hm', hafter⟩ := Construction.pushAll_cons_eq_ok.mp hrest
  have hadds := Construction.adds_pushAll before _ m hm
  have hsound : m.Sound top :=
    Construction.offerAll_eq_of_pushAll hm ▸ (Construction.sound_start top symbols).offerAll before
  have hstart : (Construction.start top symbols).graph.Unbound := by
    intro e he
    cases he
  have hfree : m.graph.Unbound := hstart.pushAll hm
  -- the declaration is the first at its span
  have hbound : d.span ∉ m.bound := by
    intro hmem
    rcases (hadds.bound d.span).mp hmem with hnone | ⟨n, hn, hspan⟩
    · cases hnone
    · obtain ⟨f, hf, hfn⟩ := List.mem_filterMap.mp hn
      obtain ⟨hbracket, hfspan⟩ := Event.of_declaration? hfn
      exact hspans f (List.mem_append_left _ hf) hbracket (hfspan.trans hspan)
  have hins : m.Inserts m.graph.order d m' :=
    Construction.inserts_push hsound hfree (by rw [hadds.symbols_eq]; exact he) hbound hm'
  obtain ⟨c, hc, hins⟩ := hins.pushAll hsound (hsound.push hm')
    (fun f hf => hspans f (List.mem_append_right _ hf)) hafter
  have hstream := Construction.pushAll_append_eq_ok.mpr ⟨m, hm, hc⟩
  -- and no reference is dropped because of it
  have huses : ∀ r ∈ c.pending, r.span ≠ d.span := by
    intro r hr hspan
    rw [(Construction.adds_pushAll _ _ c hstream).pending] at hr
    rcases List.mem_append.mp hr with hr | hr
    · cases hr
    · obtain ⟨f, hf, hfr⟩ := List.mem_filterMap.mp hr
      obtain ⟨hbracket, hfspan⟩ := Event.of_use? hfr
      exact hspans f hf hbracket (hfspan.trans hspan)
  obtain ⟨g, hg, hins⟩ := hins.finish huses hfinish
  refine ⟨m.graph.order, g, ?_, hins⟩
  rw [Graph.ofEvents, hstream]
  exact hg

/-- **Names do not interfere.**  Take an accepted stream whose scopes are ordered, and one
of its declarations, at whose span no other event of the stream declares or uses a name.
The stream without it is accepted too, and both graphs can be resolved.  They have the
same references in the same order, and each reference to another name than that of the
declaration is unbound in both, or bound in both to equal nodes. -/
theorem resolve_without_declaration {top : Span} {symbols : SymbolTable}
    {before after : List Event} {e : Event} {d : Node} {g' : Graph}
    (hg' : Graph.ofEvents top symbols (before ++ e :: after) = .ok g')
    (hordered : ∀ s, .scopeStart s ∈ before ++ after → s.start.byte ≤ s.stop.byte)
    (he : e.declaration? symbols = some d)
    (hspans : ∀ f ∈ before ++ after, f.isBracket = false → f.span ≠ d.span) :
    ∃ g r r' counts counts', Graph.ofEvents top symbols (before ++ after) = .ok g ∧
      g.resolve = .ok (r, counts) ∧ g'.resolve = .ok (r', counts') ∧
      r'.references.map r'.node? = r.references.map r.node? ∧
      ∀ (k i i' : Nat) (n : Node), r.references[k]? = some i → r'.references[k]? = some i' →
        r.node? i = some n → n.name? ≠ d.name? →
        (r'.boundTo? i').map r'.node? = (r.boundTo? i).map r.node? := by
  obtain ⟨p, g, hg, hins⟩ := ofEvents_inserts he hspans hg'
  have ho : g.ScopesOrdered := InnerScopes.ofEvents hg hordered
  have ho' : g'.ScopesOrdered := by
    refine InnerScopes.ofEvents hg' fun s hs => hordered s ?_
    rw [List.mem_append, List.mem_cons] at hs
    rw [List.mem_append]
    rcases hs with hs | rfl | hs
    · exact Or.inl hs
    · cases he
    · exact Or.inr hs
  obtain ⟨r, counts, hresolve, hext, hbound⟩ := resolve_ofEvents hg ho
  obtain ⟨r', counts', hresolve', hext', hbound'⟩ := resolve_ofEvents hg' ho'
  have hnode : ∀ i, r'.node? (shift p i) = r.node? i := by
    intro i
    rw [hext'.node?_eq, hext.node?_eq, hins.node?_shift]
  have hreferences : r'.references = r.references.map (shift p) := by
    rw [hext'.references_eq, hext.references_eq, hins.references]
  refine ⟨g, r, r', counts, counts', hg, hresolve, hresolve', ?_, ?_⟩
  · rw [hreferences, List.map_map]
    exact List.map_congr_left fun i _ => hnode i
  · intro k i i' n hi hi' hn hname
    rw [hreferences, List.getElem?_map, hi] at hi'
    cases hi'
    have hmem : i ∈ g.references := hext.references_eq ▸ List.mem_of_getElem? hi
    have hmem' : shift p i ∈ g'.references := by
      rw [hins.references]
      exact List.mem_map_of_mem hmem
    obtain ⟨m, hm, href⟩ := mem_references.mp hmem
    rw [hext.node?_eq, hm] at hn
    cases hn
    cases n with
    | reference span name symbol =>
      have hmeaning := hins.meaning (structured_ofEvents hg) (structured_ofEvents hg') ho ho' hm
        hname.symm
      rw [hbound i hmem, hbound' _ hmem', hmeaning, Option.map_map]
      exact congrArg (Option.map · _) (funext hnode)
    | scope | definition | imported => cases href

private theorem eq_ok_of_toOption {ε α : Type} {x : Except ε α} {a : α}
    (h : x.toOption = some a) : x = .ok a := by
  cases x with
  | error e => cases h
  | ok b => cases h; rfl

/-- Of two crossing scopes of one size around a reference the first counts, and does so
also without an import between their starts that all later positions depend on. -/
theorem resolve_without_declaration_crossing :
    let span (a b : Nat) : Span := ⟨⟨a, 0, a⟩, ⟨b, 0, b⟩⟩
    let before : List Event :=
      [.scopeStart (span 2 8), .definition (span 3 4) "x" .localScope none]
    let after : List Event :=
      [.scopeStart (span 4 10), .definition (span 9 10) "x" .localScope none,
        .reference (span 6 7) "x" none, .scopeEnd .zero, .scopeEnd .zero]
    let g : Graph :=
      ⟨[.scope (span 0 20), .scope (span 2 8), .definition (span 3 4) "x" none,
          .scope (span 4 10), .definition (span 9 10) "x" none, .reference (span 6 7) "x" none],
        [⟨1, 0, .scopeToScope⟩, ⟨2, 1, .definitionToScope⟩, ⟨3, 0, .scopeToScope⟩,
          ⟨4, 3, .definitionToScope⟩]⟩
    let r : Graph := { g with edges := g.edges ++ [⟨5, 2, .referenceToDefinition⟩] }
    Graph.ofEvents (span 0 20) ⟨[]⟩ (before ++ after) = .ok g ∧
      g.resolve = .ok (r, ⟨1, 1, 0, 0⟩) ∧ r.references = [5] ∧
      ∃ g' r' counts' i',
        Graph.ofEvents (span 0 20) ⟨[]⟩ (before ++ .imported (span 4 5) "y" :: after) = .ok g' ∧
        g'.resolve = .ok (r', counts') ∧ r'.references = [i'] ∧
        (r'.boundTo? i').map r'.node? = some (some (.definition (span 3 4) "x" none)) := by
  intro span before after g r
  have hordered : ∀ s, .scopeStart s ∈ before ++ after → s.start.byte ≤ s.stop.byte := by
    intro s hs
    simp only [before, after, List.cons_append, List.nil_append, List.mem_cons,
      Event.scopeStart.injEq, reduceCtorEq, List.not_mem_nil, or_false, false_or] at hs
    rcases hs with rfl | rfl <;> decide
  have hspans : ∀ f ∈ before ++ after, f.isBracket = false → f.span ≠ span 4 5 := by decide
  have hg : Graph.ofEvents (span 0 20) ⟨[]⟩ (before ++ after) = .ok g :=
    eq_ok_of_toOption (by decide +kernel)
  have hr : g.resolve = .ok (r, ⟨1, 1, 0, 0⟩) := eq_ok_of_toOption (by decide +kernel)
  have hreferences : r.references = [5] := rfl
  obtain ⟨g', hg'⟩ : ∃ g', Graph.ofEvents (span 0 20) ⟨[]⟩
      (before ++ .imported (span 4 5) "y" :: after) = .ok g' := by
    have hsome : (Graph.ofEvents (span 0 20) ⟨[]⟩
        (before ++ .imported (span 4 5) "y" :: after)).toOption.isSome = true := by decide +kernel
    obtain ⟨g', hg'⟩ := Option.isSome_iff_exists.mp hsome
    exact ⟨g', eq_ok_of_toOption hg'⟩
  obtain ⟨_, _, r', _, counts', hg₀, hr₀, hr', hmap, hall⟩ :=
    resolve_without_declaration hg' hordered rfl hspans
  cases hg.symm.trans hg₀
  cases hr.symm.trans hr₀
  rw [hreferences] at hmap
  obtain ⟨i', hi', -⟩ := List.map_eq_singleton_iff.mp hmap
  have hsame := hall 0 5 i' (.reference (span 6 7) "x" none) rfl (by rw [hi']; rfl) rfl (by decide)
  exact ⟨hg, hr, hreferences, g', r', counts', i', hg', hr', hi', hsame⟩

end Graph
end NameBinding
