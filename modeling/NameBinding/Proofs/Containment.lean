import NameBinding.Proofs.Lookup
import NameBinding.Proofs.Regions

/-!
# Containment trees

In a containment tree scopes are regions of the text, one for each span, any two
nested or disjoint, and the parent of a scope is the smallest other scope around it.
Then going inward and going outward see the same scopes: the descent ends at the
smallest scope around a span, and the scopes on the way from there to the root are
exactly the scopes that contain it.

## Main definitions

* `Graph.ContainmentTree` — the tree of scopes is their containment order.

## Main results

* `ContainmentTree.child_unique` — a span lies in at most one child of a scope.
* `ContainmentTree.smallestScope_eq_ok` — **the descent ends at the smallest scope
  around the span.**
* `ContainmentTree.mem_outward_iff` — **the scopes outward from a scope are those that
  contain it.**
-/

namespace NameBinding
namespace Graph

/-- Scopes are regions of the text `top`: none is empty or repeated, any two are nested
or disjoint, and the parent of a scope is the smallest other scope that contains it. -/
structure ContainmentTree (top : Span) (g : Graph) : Prop where
  structured : g.Structured top
  nonempty : g.InnerScopes fun s => s.start.byte < s.stop.byte
  inside : g.InnerScopes fun s => top.contains s = true
  nested : ∀ i j s t, i ≠ root → j ≠ root → g.node? i = some (.scope s) →
    g.node? j = some (.scope t) → s.contains t = true ∨ t.contains s = true ∨
      s.stop.byte ≤ t.start.byte ∨ t.stop.byte ≤ s.start.byte
  unique : ∀ i j s t, g.node? i = some (.scope s) → g.node? j = some (.scope t) →
    s.contains t = true → t.contains s = true → i = j
  closest : ∀ p i, g.IsChild p i → ∀ j s, g.node? j = some (.scope s) → j ≠ i →
    s.contains (g.spanOf i) = true → s.contains (g.spanOf p) = true

theorem Outward.exists_child {g : Graph} {j a : Nat} {chain : List Nat} (h : g.Outward j chain)
    (ha : a ∈ chain) (hne : a ≠ j) : ∃ child ∈ chain, g.parent child = .ok (some a) := by
  induction h with
  | root => exact absurd (List.mem_singleton.mp ha) hne
  | @step scope outer rest hparent hrest ih =>
    have ha' : a ∈ rest := (List.mem_cons.mp ha).resolve_left hne
    by_cases heq : a = outer
    · exact ⟨scope, List.mem_cons_self .., heq ▸ hparent⟩
    · obtain ⟨child, hchild, hp⟩ := ih ha' heq
      exact ⟨child, List.mem_cons_of_mem _ hchild, hp⟩

theorem Outward.root_mem {g : Graph} {j : Nat} {chain : List Nat} (h : g.Outward j chain) :
    Graph.root ∈ chain := by
  induction h with
  | root => exact List.mem_singleton.mpr rfl
  | step _ _ ih => exact List.mem_cons_of_mem _ ih

namespace ContainmentTree

variable {top : Span} {g : Graph}

theorem spanOf_root (h : g.ContainmentTree top) : g.spanOf root = top :=
  spanOf_eq h.structured.node?_root

theorem ordered (h : g.ContainmentTree top) : g.ScopesOrdered := by
  intro i s hi hs
  have hlt := h.nonempty i s hi hs
  exact Nat.le_of_lt hlt

theorem top_contains (h : g.ContainmentTree top) {i : Nat} {s : Span}
    (hs : g.node? i = some (.scope s)) : top.contains s = true := by
  by_cases hi : i = root
  · rw [hi, h.structured.node?_root] at hs
    cases hs
    exact Span.contains_refl _
  · exact h.inside i s hi hs

/-- Also the root contains its children. -/
theorem contains_child (h : g.ContainmentTree top) {p i : Nat} (hchild : g.IsChild p i) :
    (g.spanOf p).contains (g.spanOf i) = true := by
  obtain ⟨-, -, s, hs, hcases⟩ := h.structured.attached _ hchild rfl
  rcases hcases with hroot | hcontains
  · obtain ⟨-, t, ht⟩ := h.structured.isChild_scope hchild
    simp only at hroot
    rw [hroot, h.spanOf_root, spanOf_eq ht]
    exact h.top_contains ht
  · rw [← show g.spanOf p = s from spanOf_eq hs] at hcontains
    exact hcontains

/-- **A span lies in at most one child of a scope.** -/
theorem child_unique (h : g.ContainmentTree top) {p i j : Nat} {t : Span}
    (ht : t.start.byte < t.stop.byte) (hi : g.IsChild p i) (hj : g.IsChild p j)
    (hit : (g.spanOf i).contains t = true) (hjt : (g.spanOf j).contains t = true) : i = j := by
  -- of two nested children the outer one would be the parent of the inner one
  have key : ∀ {a b : Nat}, g.IsChild p a → g.IsChild p b →
      (g.spanOf a).contains (g.spanOf b) = true → a = b := by
    intro a b ha hb hab
    apply Decidable.byContradiction
    intro hne
    obtain ⟨-, sa, hsa⟩ := h.structured.isChild_scope ha
    obtain ⟨-, -, sp, hsp, -⟩ := h.structured.attached _ ha rfl
    have hspan : g.spanOf p = sp := spanOf_eq hsp
    rw [spanOf_eq hsa] at hab
    have hap := h.closest p b hb a sa hsa hne hab
    have hpa := h.contains_child ha
    rw [hspan] at hap
    rw [hspan, spanOf_eq hsa] at hpa
    have heq : a = p := h.unique a p sa sp hsa hsp hap hpa
    have hlt := (h.structured.isChild_lt ha).1
    omega
  obtain ⟨hir, si, hsi⟩ := h.structured.isChild_scope hi
  obtain ⟨hjr, sj, hsj⟩ := h.structured.isChild_scope hj
  have hi' := hit
  have hj' := hjt
  rw [spanOf_eq hsi, Span.contains_iff] at hi'
  rw [spanOf_eq hsj, Span.contains_iff] at hj'
  simp only [Node.span] at hi' hj'
  rcases h.nested i j si sj hir hjr hsi hsj with hc | hc | hc | hc
  · exact key hi hj (by rw [spanOf_eq hsi, spanOf_eq hsj]; exact hc)
  · exact (key hj hi (by rw [spanOf_eq hsi, spanOf_eq hsj]; exact hc)).symm
  · omega
  · omega

/-! ### Inward -/

theorem contains_of_descendsTo (h : g.ContainmentTree top) {t : Span} {a m : Nat}
    (hd : g.DescendsTo t a m) : (g.spanOf a).contains (g.spanOf m) = true := by
  induction hd with
  | stay _ => exact Span.contains_refl _
  | step hclosest _ ih => exact Span.contains_trans (h.contains_child hclosest.isChild) ih

/-- A scope around the span below the start of the descent contains its end. -/
theorem contains_last (h : g.ContainmentTree top) {t : Span} (ht : t.start.byte < t.stop.byte)
    {a m : Nat} (hd : g.DescendsTo t a m) :
    ∀ (j : Nat) (chain : List Nat), (g.spanOf j).contains t = true → g.Outward j chain →
      a ∈ chain → (g.spanOf j).contains (g.spanOf m) = true := by
  -- the child of `a` towards a scope below it contains the span, too
  have key : ∀ {a j : Nat} {chain : List Nat}, (g.spanOf j).contains t = true →
      g.Outward j chain → a ∈ chain → a ≠ j →
      ∃ child ∈ chain, g.IsChild a child ∧ (g.spanOf child).contains t = true := by
    intro a j chain hj hout ha hne
    obtain ⟨child, hmem, hparent⟩ := hout.exists_child ha hne
    have hchild := h.structured.parent_eq_ok_iff.mp hparent
    have hcontains := h.structured.outward_contains hout (Or.inr hj) child hmem
    exact ⟨child, hmem, hchild,
      hcontains.resolve_left (h.structured.isChild_scope hchild).1⟩
  induction hd with
  | @stay a hnone =>
    intro j chain hj hout ha
    by_cases hne : a = j
    · rw [hne]
      exact Span.contains_refl _
    · obtain ⟨child, -, hchild, hcontains⟩ := key hj hout ha hne
      rw [hnone child hchild] at hcontains
      cases hcontains
  | @step a child m hclosest hrest ih =>
    intro j chain hj hout ha
    by_cases hne : a = j
    · rw [← hne]
      exact h.contains_of_descendsTo (.step hclosest hrest)
    · obtain ⟨child', hmem, hchild, hcontains⟩ := key hj hout ha hne
      have heq := h.child_unique ht hchild hclosest.isChild hcontains hclosest.contains
      exact ih j chain hj hout (heq ▸ hmem)

/-- **The descent ends at the smallest scope around the span.** -/
theorem smallestScope_eq_ok (h : g.ContainmentTree top) {t : Span}
    (ht : t.start.byte < t.stop.byte) (htop : top.contains t = true) :
    ∃ m s, g.smallestScope t = .ok m ∧ g.node? m = some (.scope s) ∧ s.contains t = true ∧
      ∀ j u, g.node? j = some (.scope u) → u.contains t = true → u.contains s = true := by
  obtain ⟨m, hm, hd⟩ := h.structured.smallestScope_eq_ok h.ordered t
  obtain ⟨s, hs⟩ := hd.scope_last h.structured ⟨top, h.structured.node?_root⟩
  refine ⟨m, s, hm, hs, ?_, ?_⟩
  · rcases hd.eq_or_contains with hroot | hcontains
    · rw [hroot, h.structured.node?_root] at hs
      cases hs
      exact htop
    · rw [spanOf_eq hs] at hcontains
      exact hcontains
  · intro j u hu hcontains
    obtain ⟨chain, hout⟩ := h.structured.exists_outward j ⟨u, hu⟩
    have hspan : g.spanOf j = u := spanOf_eq hu
    rw [← hspan] at hcontains
    have hlast := h.contains_last ht hd j chain hcontains hout hout.root_mem
    rw [hspan, spanOf_eq hs] at hlast
    exact hlast

/-! ### Outward -/

/-- **The scopes outward from a scope are those that contain it.** -/
theorem mem_outward_iff (h : g.ContainmentTree top) {m : Nat} {chain : List Nat}
    (hout : g.Outward m chain) (hm : ∃ s, g.node? m = some (.scope s)) {j : Nat} :
    j ∈ chain ↔ ∃ u, g.node? j = some (.scope u) ∧ u.contains (g.spanOf m) = true := by
  induction hout with
  | root =>
    rw [List.mem_singleton, h.spanOf_root]
    constructor
    · rintro rfl
      exact ⟨top, h.structured.node?_root, Span.contains_refl _⟩
    · rintro ⟨u, hu, hcontains⟩
      exact h.unique j root u top hu h.structured.node?_root hcontains (h.top_contains hu)
  | @step m outer rest hparent hrest ih =>
    obtain ⟨s, hs⟩ := hm
    obtain ⟨-, so, hso, -⟩ := h.structured.of_parent hparent
    have hchild := h.structured.parent_eq_ok_iff.mp hparent
    rw [List.mem_cons, ih ⟨so, hso⟩]
    constructor
    · rintro (rfl | ⟨u, hu, hcontains⟩)
      · refine ⟨s, hs, ?_⟩
        rw [spanOf_eq hs]
        exact Span.contains_refl _
      · exact ⟨u, hu, Span.contains_trans hcontains (h.contains_child hchild)⟩
    · rintro ⟨u, hu, hcontains⟩
      by_cases hne : j = m
      · exact Or.inl hne
      · exact Or.inr ⟨u, hu, h.closest outer m hchild j u hu hne hcontains⟩

/-- Later scopes of the way outward contain earlier ones. -/
theorem pairwise_outward (h : g.ContainmentTree top) {m : Nat} {chain : List Nat}
    (hout : g.Outward m chain) (hm : ∃ s, g.node? m = some (.scope s)) :
    chain.Pairwise fun a b => (g.spanOf b).contains (g.spanOf a) = true := by
  induction hout with
  | root => exact List.pairwise_singleton ..
  | @step m outer rest hparent hrest ih =>
    obtain ⟨-, so, hso, -⟩ := h.structured.of_parent hparent
    have hchild := h.structured.parent_eq_ok_iff.mp hparent
    rw [List.pairwise_cons]
    refine ⟨fun b hb => ?_, ih ⟨so, hso⟩⟩
    obtain ⟨u, hu, hcontains⟩ := (h.mem_outward_iff hrest ⟨so, hso⟩).mp hb
    rw [spanOf_eq hu]
    exact Span.contains_trans hcontains (h.contains_child hchild)

end ContainmentTree
end Graph
end NameBinding
