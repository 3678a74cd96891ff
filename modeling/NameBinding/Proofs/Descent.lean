import NameBinding.Proofs.Growth

/-!
# The descent to the innermost scope

The search for the innermost scope around a span starts at the root and goes into
the smallest child that contains the span, as long as there is one.  In a structured
graph children come after their parents, so the walk ends before the bound on its
steps is reached, and no step fails if the scopes are ordered.

## Main definitions

* `Graph.ScopesOrdered` — no scope but possibly the root is reversed.
* `Graph.ClosestChild` — the child a step of the descent goes into.
* `Graph.DescendsTo` — where the descent from a scope ends.

## Main results

* `leastBy?_spec` — a least element is one, and below all others.
* `Structured.smallestScope_eq_ok` — **the search ends where the descent does.**
-/

namespace NameBinding
namespace Graph

/-! ### Least elements -/

section Least

variable {α : Type} {le : α → α → Bool}

@[simp] theorem leastBy?_eq_none {as : List α} : leastBy? le as = none ↔ as = [] := by
  cases as <;> simp [leastBy?]

/-- The running minimum is one of the elements met, and below all of them. -/
theorem foldl_least (total : ∀ a b, le a b = true ∨ le b a = true)
    (trans : ∀ a b c, le a b = true → le b c = true → le a c = true) :
    ∀ (as : List α) (a : α),
      as.foldl (fun m x => if le m x then m else x) a ∈ a :: as ∧
        ∀ x ∈ a :: as, le (as.foldl (fun m x => if le m x then m else x) a) x = true := by
  intro as
  induction as with
  | nil =>
    intro a
    simpa using total a a
  | cons b bs ih =>
    intro a
    rw [List.foldl_cons]
    obtain ⟨hmem, hle⟩ := ih (if le a b then a else b)
    -- the survivor of the first comparison is below both of its sides
    have hboth : le (if le a b then a else b) a = true ∧ le (if le a b then a else b) b = true := by
      split
      · next h => exact ⟨by simpa using total a a, h⟩
      · next h => exact ⟨(total a b).resolve_left h, by simpa using total b b⟩
    have hhead := hle _ (List.mem_cons_self ..)
    refine ⟨?_, ?_⟩
    · rcases List.mem_cons.mp hmem with h | h
      · rw [h]
        split <;> simp
      · exact List.mem_cons_of_mem _ (List.mem_cons_of_mem _ h)
    · intro x hx
      rcases List.mem_cons.mp hx with rfl | hx
      · exact trans _ _ _ hhead hboth.1
      · rcases List.mem_cons.mp hx with rfl | hx
        · exact trans _ _ _ hhead hboth.2
        · exact hle x (List.mem_cons_of_mem _ hx)

/-- **A least element is one of the elements, and below all of them.** -/
theorem leastBy?_spec (total : ∀ a b, le a b = true ∨ le b a = true)
    (trans : ∀ a b c, le a b = true → le b c = true → le a c = true)
    {as : List α} {m : α} (h : leastBy? le as = some m) : m ∈ as ∧ ∀ x ∈ as, le m x = true := by
  cases as with
  | nil => simp [leastBy?] at h
  | cons a as =>
    rw [leastBy?, Option.some.injEq] at h
    rw [← h]
    exact foldl_least total trans as a

end Least

theorem smaller_iff {a b : Nat × Nat} :
    smaller a b = true ↔ a.1 < b.1 ∨ (a.1 = b.1 ∧ a.2 ≤ b.2) := by
  simp [smaller]

theorem smaller_total (a b : Nat × Nat) : smaller a b = true ∨ smaller b a = true := by
  rw [smaller_iff, smaller_iff]
  omega

theorem smaller_trans (a b c : Nat × Nat) (hab : smaller a b = true) (hbc : smaller b c = true) :
    smaller a c = true := by
  rw [smaller_iff] at *
  omega

/-! ### The closest child -/

/-- No scope but possibly the root ends before it starts. -/
abbrev ScopesOrdered (g : Graph) : Prop := g.InnerScopes fun s => s.start.byte ≤ s.stop.byte

/-- The number of bytes of a node that is not reversed. -/
def width (g : Graph) (i : Nat) : Nat := (g.spanOf i).stop.byte - (g.spanOf i).start.byte

/-- The scope `child` lies directly in `scope`. -/
def IsChild (g : Graph) (scope child : Nat) : Prop :=
  (⟨child, scope, .scopeToScope⟩ : Edge) ∈ g.edges

/-- Of the children of `scope` that contain the span, `child` is the smallest, and
the first of several smallest ones. -/
structure ClosestChild (g : Graph) (scope : Nat) (span : Span) (child : Nat) : Prop where
  isChild : g.IsChild scope child
  contains : (g.spanOf child).contains span = true
  least : ∀ other, g.IsChild scope other → (g.spanOf other).contains span = true →
    g.width child < g.width other ∨ (g.width child = g.width other ∧ child ≤ other)

theorem mem_incoming_scopes {g : Graph} {scope child : Nat} :
    child ∈ g.incoming scope (· == .scopeToScope) ↔ g.IsChild scope child :=
  mem_incoming_beq

theorem size_eq_ok {s : Span} (h : s.start.byte ≤ s.stop.byte) :
    s.size = .ok (s.stop.byte - s.start.byte) := by
  simp [Span.size, Size.sub, h]

/-- A list of computations that all succeed succeeds with the list of their results. -/
theorem mapM_eq_ok {ε α β : Type} {f : α → Except ε β} {r : α → β} :
    ∀ {as : List α}, (∀ a ∈ as, f a = .ok (r a)) → as.mapM f = .ok (as.map r) := by
  intro as
  induction as with
  | nil => intro _; rfl
  | cons a as ih =>
    intro h
    rw [List.mapM_cons, h a (List.mem_cons_self ..), ih fun b hb => h b (List.mem_cons_of_mem _ hb)]
    rfl

namespace Structured

variable {top : Span} {g : Graph}

theorem isChild_lt (h : g.Structured top) {scope child : Nat} (hc : g.IsChild scope child) :
    scope < child ∧ child < g.order := by
  obtain ⟨hlt, hlt', -⟩ := h.attached _ hc rfl
  exact ⟨hlt, hlt'⟩

theorem isChild_scope (h : g.Structured top) {scope child : Nat} (hc : g.IsChild scope child) :
    child ≠ root ∧ ∃ s, g.node? child = some (.scope s) := by
  obtain ⟨hne, n, hn, hkind⟩ := h.source_of_edge hc rfl
  obtain ⟨s, rfl⟩ := Node.attachment_eq_scopeToScope hkind
  exact ⟨hne, s, hn⟩

theorem childrenAround_eq_ok (h : g.Structured top) (ho : g.ScopesOrdered) (scope : Nat)
    (span : Span) :
    g.childrenAround scope span =
      .ok (((g.incoming scope (· == .scopeToScope)).filter fun i =>
        (g.spanOf i).contains span).map fun i => (g.width i, i)) := by
  refine mapM_eq_ok fun i hi => ?_
  obtain ⟨hne, s, hs⟩ := h.isChild_scope (mem_incoming_scopes.mp (List.mem_filter.mp hi).1)
  have hle := ho i s hne hs
  rw [← show g.spanOf i = s from spanOf_eq hs] at hle
  rw [size_eq_ok hle]
  rfl

/-- A step of the descent does not fail: it finds the closest child if any child
contains the span. -/
theorem closestChild?_cases (h : g.Structured top) (ho : g.ScopesOrdered) (scope : Nat)
    (span : Span) :
    (g.closestChild? scope span = .ok none ∧
        ∀ child, g.IsChild scope child → (g.spanOf child).contains span = false) ∨
      ∃ child, g.closestChild? scope span = .ok (some child) ∧ g.ClosestChild scope span child := by
  rw [closestChild?, h.childrenAround_eq_ok ho]
  simp only [bind, Except.bind, pure, Except.pure]
  generalize hl : ((g.incoming scope (· == .scopeToScope)).filter fun i =>
    (g.spanOf i).contains span) = children
  have hmem : ∀ i, i ∈ children ↔ g.IsChild scope i ∧ (g.spanOf i).contains span = true := by
    intro i
    rw [← hl, List.mem_filter, mem_incoming_scopes]
  cases hm : leastBy? smaller (children.map fun i => (g.width i, i)) with
  | none =>
    left
    rw [leastBy?_eq_none, List.map_eq_nil_iff] at hm
    refine ⟨rfl, fun child hchild => ?_⟩
    rw [Bool.eq_false_iff]
    intro hcontains
    have := (hmem child).mpr ⟨hchild, hcontains⟩
    rw [hm] at this
    exact List.not_mem_nil this
  | some m =>
    right
    obtain ⟨hin, hle⟩ := leastBy?_spec smaller_total smaller_trans hm
    obtain ⟨child, hchild, rfl⟩ := List.mem_map.mp hin
    obtain ⟨hedge, hcontains⟩ := (hmem child).mp hchild
    refine ⟨child, rfl, hedge, hcontains, fun other hother hcontains' => ?_⟩
    exact smaller_iff.mp (hle _ (List.mem_map_of_mem ((hmem other).mpr ⟨hother, hcontains'⟩)))

end Structured

/-! ### The descent -/

/-- The descent from `scope` towards the span ends at `last`. -/
inductive DescendsTo (g : Graph) (span : Span) : Nat → Nat → Prop
  | stay {scope : Nat}
      (h : ∀ child, g.IsChild scope child → (g.spanOf child).contains span = false) :
      DescendsTo g span scope scope
  | step {scope child last : Nat} (h : g.ClosestChild scope span child)
      (rest : DescendsTo g span child last) : DescendsTo g span scope last

namespace DescendsTo

variable {top : Span} {g : Graph} {span : Span} {scope last : Nat}

/-- No child of the scope reached contains the span. -/
theorem innermost (h : g.DescendsTo span scope last) :
    ∀ child, g.IsChild last child → (g.spanOf child).contains span = false := by
  induction h with
  | stay h => exact h
  | step _ _ ih => exact ih

/-- The scope reached contains the span, unless no step was made. -/
theorem eq_or_contains (h : g.DescendsTo span scope last) :
    last = scope ∨ (g.spanOf last).contains span = true := by
  induction h with
  | stay _ => exact Or.inl rfl
  | step hclosest _ ih =>
    right
    rcases ih with rfl | hcontains
    · exact hclosest.contains
    · exact hcontains

theorem scope_last (hg : g.Structured top) (h : g.DescendsTo span scope last)
    (hs : ∃ s, g.node? scope = some (.scope s)) : ∃ s, g.node? last = some (.scope s) := by
  induction h with
  | stay _ => exact hs
  | step hclosest _ ih => exact ih (hg.isChild_scope hclosest.isChild).2

end DescendsTo

namespace Structured

variable {top : Span} {g : Graph}

/-- Children come after their parents, so as many steps as there are nodes after
`scope` are enough. -/
theorem descend_eq_ok (h : g.Structured top) (ho : g.ScopesOrdered) (span : Span) :
    ∀ (n scope : Nat), scope < g.order → g.order ≤ scope + n →
      ∃ last, g.descend span n scope = .ok last ∧ g.DescendsTo span scope last := by
  intro n
  induction n with
  | zero => intro scope hlt hle; omega
  | succ n ih =>
    intro scope hlt hle
    rw [descend]
    rcases h.closestChild?_cases ho scope span with ⟨hnone, hall⟩ | ⟨child, hsome, hclosest⟩
    · rw [hnone]
      exact ⟨scope, rfl, .stay hall⟩
    · rw [hsome]
      obtain ⟨hsc, hco⟩ := h.isChild_lt hclosest.isChild
      obtain ⟨last, hlast, hdesc⟩ := ih child hco (by omega)
      exact ⟨last, hlast, .step hclosest hdesc⟩

/-- **The search for the innermost scope ends where the descent from the root does.** -/
theorem smallestScope_eq_ok (h : g.Structured top) (ho : g.ScopesOrdered) (span : Span) :
    ∃ last, g.smallestScope span = .ok last ∧ g.DescendsTo span root last := by
  have hroot := h.root_lt
  exact h.descend_eq_ok ho span g.order root hroot (by omega)

end Structured
end Graph
end NameBinding
