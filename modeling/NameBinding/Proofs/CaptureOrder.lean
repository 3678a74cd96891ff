import NameBinding.Capture.Stream

/-!
# The order of captures

Captures are sorted by start, the longer one first, then by role, and captures that
reopen a scope are dropped.  Nothing else is lost, and since the sort is stable,
captures of one span and one kind keep their order.  So what binds a name first at a
span is the first definition there among the captures as given; where there is no
definition, it is the first import.

## Main definitions

* `Role.isDefinition`, `Role.isImport`, `Role.declares` — roles that bind a name.
* `Capture.binderAt` — the capture that binds the name at a span.

## Main results

* `Capture.pairwise_inOrder` — the order is the one announced.
* `Capture.find?_inOrder` — the first binder of a span is the one that counts.
-/

namespace NameBinding

def Role.isDefinition : Role → Bool
  | .definition _ => true
  | _ => false

def Role.isImport : Role → Bool
  | .imported => true
  | _ => false

/-- Does a capture of this role bind a name? -/
def Role.declares (r : Role) : Bool := r.isDefinition || r.isImport

theorem Role.rank_of_isDefinition {r : Role} (h : r.isDefinition = true) : r.rank = 1 := by
  cases r <;> simp_all [isDefinition, rank]

theorem Role.rank_of_isImport {r : Role} (h : r.isImport = true) : r.rank = 2 := by
  cases r <;> simp_all [isImport, rank]

theorem Role.declares_iff {r : Role} :
    r.declares = true ↔ r.isDefinition = true ∨ r.isImport = true := by
  simp [declares]

namespace Capture

/-- The capture that binds the name at a span: the first definition there, or else the
first import. -/
def binderAt (captures : List Capture) (span : Span) : Option Capture :=
  (captures.filter (·.role.isDefinition) ++ captures.filter (·.role.isImport)).find?
    (·.span == span)

/-! ### Sorting -/

theorem precedes_iff {a b : Capture} : precedes a b = true ↔
    a.span.start.byte < b.span.start.byte ∨
      (a.span.start.byte = b.span.start.byte ∧ (b.span.stop.byte < a.span.stop.byte ∨
        (b.span.stop.byte = a.span.stop.byte ∧ a.role.rank ≤ b.role.rank))) := by
  simp only [precedes, Ordering.isLE_then_iff_or, Nat.compare_eq_lt, Nat.compare_eq_eq,
    Nat.isLE_compare]

theorem precedes_trans (a b c : Capture) (hab : precedes a b = true) (hbc : precedes b c = true) :
    precedes a c = true := by
  rw [precedes_iff] at *
  omega

theorem precedes_total (a b : Capture) : (precedes a b || precedes b a) = true := by
  rw [Bool.or_eq_true, precedes_iff, precedes_iff]
  omega

/-- A stable sort does not touch the order of what is in order already. -/
theorem filter_mergeSort {α : Type} {le : α → α → Bool}
    (trans : ∀ a b c, le a b = true → le b c = true → le a c = true)
    (total : ∀ a b, (le a b || le b a) = true) {as : List α} {p : α → Bool}
    (h : (as.filter p).Pairwise (le · · = true)) : (as.mergeSort le).filter p = as.filter p := by
  have hsub : (as.filter p).Sublist (as.mergeSort le) :=
    List.sublist_mergeSort trans total h (List.filter_sublist ..)
  have hsub' := hsub.filter p
  rw [List.filter_filter] at hsub'
  simp only [Bool.and_self] at hsub'
  have hlen := ((List.mergeSort_perm as le).filter p).length_eq
  exact (hsub'.eq_of_length hlen.symm).symm

theorem dropReopened_sublist : ∀ (cs : List Capture) (last : Capture),
    (dropReopened last cs).Sublist cs := by
  intro cs
  induction cs with
  | nil => intro last; exact .slnil
  | cons c cs ih =>
    intro last
    rw [dropReopened]
    split
    · exact (ih last).cons c
    · exact (ih c).cons_cons c

/-- What is not a scope is not dropped. -/
theorem filter_dropReopened {p : Capture → Bool} (hp : ∀ c, p c = true → c.role ≠ .scope) :
    ∀ (cs : List Capture) (last : Capture), (dropReopened last cs).filter p = cs.filter p := by
  intro cs
  induction cs with
  | nil => intro last; rfl
  | cons c cs ih =>
    intro last
    rw [dropReopened]
    split
    · next h =>
      simp only [sameScope, Bool.and_eq_true, beq_iff_eq] at h
      have hc : p c = false := by
        rw [Bool.eq_false_iff]
        exact fun hpc => hp c hpc h.1.2
      rw [ih last, List.filter_cons, hc]
      rfl
    · rw [List.filter_cons, List.filter_cons, ih c]

/-- A scope is dropped only after another one of its span. -/
theorem scope_dropReopened : ∀ (cs : List Capture) (last c : Capture), c ∈ cs → c.role = .scope →
    ∃ c' ∈ last :: dropReopened last cs, c'.role = .scope ∧ c'.span = c.span := by
  intro cs
  induction cs with
  | nil => intro last c hc; cases hc
  | cons d cs ih =>
    intro last c hc hrole
    rw [dropReopened]
    split
    · next h =>
      simp only [sameScope, Bool.and_eq_true, beq_iff_eq] at h
      rcases List.mem_cons.mp hc with rfl | hc
      · exact ⟨last, List.mem_cons_self .., h.1.1, h.2⟩
      · exact ih last c hc hrole
    · rcases List.mem_cons.mp hc with rfl | hc
      · exact ⟨c, by simp, hrole, rfl⟩
      · obtain ⟨c', hc', hr', hs'⟩ := ih d c hc hrole
        exact ⟨c', List.mem_cons_of_mem _ hc', hr', hs'⟩

theorem inOrder_sublist (captures : List Capture) :
    (inOrder captures).Sublist ((kept captures).mergeSort precedes) := by
  rw [inOrder]
  split
  · exact List.nil_sublist _
  · next c cs h =>
    rw [h]
    exact (dropReopened_sublist cs c).cons_cons c

/-- **Captures are taken in the order of `precedes`.** -/
theorem pairwise_inOrder (captures : List Capture) :
    (inOrder captures).Pairwise (precedes · · = true) :=
  (List.pairwise_mergeSort precedes_trans precedes_total _).sublist (inOrder_sublist captures)

variable {captures : List Capture}

theorem filter_inOrder {p : Capture → Bool} (hp : ∀ c, p c = true → c.role ≠ .scope) :
    (inOrder captures).filter p = ((kept captures).mergeSort precedes).filter p := by
  rw [inOrder]
  split
  · next h => rw [h]
  · next c cs h => rw [h, List.filter_cons, List.filter_cons, filter_dropReopened hp]

theorem mem_kept_of_mem_inOrder {c : Capture} (h : c ∈ inOrder captures) : c ∈ kept captures :=
  List.mem_mergeSort.mp ((inOrder_sublist captures).subset h)

theorem mem_of_mem_inOrder {c : Capture} (h : c ∈ inOrder captures) : c ∈ captures :=
  (List.mem_filter.mp (mem_kept_of_mem_inOrder h)).1

/-- What is kept and is no scope is taken. -/
theorem mem_inOrder_of_kept {c : Capture} (h : c ∈ kept captures) (hrole : c.role ≠ .scope) :
    c ∈ inOrder captures := by
  have hmem : c ∈ ((kept captures).mergeSort precedes).filter (·.role != .scope) := by
    simp [h, hrole]
  rw [← filter_inOrder (by simp)] at hmem
  exact (List.mem_filter.mp hmem).1

/-- Every scope is taken, or another one of its span. -/
theorem exists_scope_inOrder {c : Capture} (h : c ∈ captures) (hrole : c.role = .scope) :
    ∃ c' ∈ inOrder captures, c'.role = .scope ∧ c'.span = c.span := by
  have hkept : c ∈ (kept captures).mergeSort precedes := by
    rw [List.mem_mergeSort, kept, List.mem_filter, hrole]
    exact ⟨h, rfl⟩
  rw [inOrder]
  split
  · next heq => rw [heq] at hkept; cases hkept
  · next d cs heq =>
    rw [heq] at hkept
    rcases List.mem_cons.mp hkept with rfl | hmem
    · exact ⟨c, List.mem_cons_self .., hrole, rfl⟩
    · exact scope_dropReopened cs d c hmem hrole

/-- The scopes that are taken have the spans of the scopes captured. -/
theorem exists_scope_inOrder_iff {s : Span} :
    (∃ c ∈ inOrder captures, c.role = .scope ∧ c.span = s) ↔
      ∃ c ∈ captures, c.role = .scope ∧ c.span = s := by
  constructor
  · rintro ⟨c, hc, hrole, hs⟩
    exact ⟨c, mem_of_mem_inOrder hc, hrole, hs⟩
  · rintro ⟨c, hc, hrole, rfl⟩
    exact exists_scope_inOrder hc hrole

/-! ### Binders -/

/-- Captures of one span and one kind keep their order. -/
theorem filter_inOrder_kind (captures : List Capture) (span : Span) {kind : Role → Bool}
    {rank : Nat} (hrank : ∀ r, kind r = true → r.rank = rank)
    (hkind : ∀ r, kind r = true → r.declares = true) :
    (inOrder captures).filter (fun c => kind c.role && c.span == span) =
      captures.filter fun c => kind c.role && c.span == span := by
  have hrole : ∀ c : Capture, (kind c.role && c.span == span) = true → c.role.declares = true := by
    intro c hc
    rw [Bool.and_eq_true] at hc
    exact hkind _ hc.1
  -- what declares a name is always kept
  have hkept : (kept captures).filter (fun c => kind c.role && c.span == span) =
      captures.filter fun c => kind c.role && c.span == span := by
    rw [kept, List.filter_filter]
    refine List.filter_congr fun c _ => ?_
    cases hc : kind c.role && c.span == span
    · rfl
    · have hd := hrole c hc
      cases hr : c.role <;> simp_all [Role.declares, Role.isDefinition, Role.isImport]
  have hsorted : ((kept captures).filter fun c => kind c.role && c.span == span).Pairwise
      (precedes · · = true) := by
    rw [List.pairwise_filter]
    refine List.pairwise_of_forall fun a b ha hb => ?_
    rw [Bool.and_eq_true, beq_iff_eq] at ha hb
    rw [precedes_iff, ha.2, hb.2, hrank _ ha.1, hrank _ hb.1]
    simp
  rw [filter_inOrder, filter_mergeSort precedes_trans precedes_total hsorted, hkept]
  intro c hc hscope
  have hd := hrole c hc
  rw [hscope] at hd
  cases hd

theorem binderAt_eq (captures : List Capture) (span : Span) :
    binderAt captures span =
      ((captures.filter fun c => c.role.isDefinition && c.span == span).head?).or
        (captures.filter fun c => c.role.isImport && c.span == span).head? := by
  rw [binderAt, List.find?_append, List.find?_filter, List.find?_filter, List.head?_filter,
    List.head?_filter]
  simp only [Bool.decide_and, Bool.decide_eq_true]

/-- Where a span has a definition, its first binder is no import: imports stand after
definitions of their span. -/
theorem isDefinition_of_first {span : Span} {d y : Capture} {as bs : List Capture}
    (hsorted : (as ++ y :: bs).Pairwise (precedes · · = true)) (hd : d ∈ as ++ y :: bs)
    (hdd : d.role.isDefinition = true) (hds : d.span = span) (hy : y.role.declares = true)
    (hys : y.span = span) (has : ∀ c ∈ as, (c.role.declares && c.span == span) = false) :
    y.role.isDefinition = true := by
  rcases Role.declares_iff.mp hy with h | h
  · exact h
  · exfalso
    rcases List.mem_append.mp hd with hin | hin
    · have hno := has d hin
      simp [Role.declares, hdd, hds] at hno
    · rcases List.mem_cons.mp hin with rfl | hin
      · have h1 := Role.rank_of_isDefinition hdd
        have h2 := Role.rank_of_isImport h
        omega
      · have hle := List.rel_of_pairwise_cons (List.pairwise_append.mp hsorted).2.1 hin
        rw [precedes_iff, hys, hds, Role.rank_of_isDefinition hdd, Role.rank_of_isImport h] at hle
        omega

/-- **The first binder of a span is the one that counts.** -/
theorem find?_inOrder (captures : List Capture) (span : Span) :
    (inOrder captures).find? (fun c => c.role.declares && c.span == span) =
      binderAt captures span := by
  rw [binderAt_eq,
    ← filter_inOrder_kind captures span (fun _ => Role.rank_of_isDefinition)
      (by simp +contextual [Role.declares]),
    ← filter_inOrder_kind captures span (fun _ => Role.rank_of_isImport)
      (by simp +contextual [Role.declares])]
  cases hd : (inOrder captures).filter fun c => c.role.isDefinition && c.span == span with
  | nil =>
    -- no definition: the binders are the imports
    rw [List.head?_nil, Option.none_or, ← List.head?_filter]
    congr 1
    refine List.filter_congr fun c hc => ?_
    have hno := List.filter_eq_nil_iff.mp hd c hc
    cases hi : c.role.isDefinition <;> simp_all [Role.declares]
  | cons d ds =>
    have hdm : d ∈ (inOrder captures).filter fun c => c.role.isDefinition && c.span == span := by
      rw [hd]; exact List.mem_cons_self ..
    obtain ⟨hdL, hdd⟩ := List.mem_filter.mp hdm
    rw [Bool.and_eq_true, beq_iff_eq] at hdd
    rw [List.head?_cons, Option.some_or]
    cases hy : (inOrder captures).find? fun c => c.role.declares && c.span == span with
    | none =>
      have hno := List.find?_eq_none.mp hy d hdL
      simp [Role.declares, hdd] at hno
    | some y =>
      obtain ⟨hyq, as, bs, hL, has⟩ := List.find?_eq_some_iff_append.mp hy
      rw [Bool.and_eq_true, beq_iff_eq] at hyq
      simp only [Bool.not_eq_true'] at has
      have hydef : y.role.isDefinition = true :=
        isDefinition_of_first (hL ▸ pairwise_inOrder captures) (hL ▸ hdL) hdd.1 hdd.2 hyq.1 hyq.2 has
      -- so it is the first definition, too
      have hnil : as.filter (fun c => c.role.isDefinition && c.span == span) = [] := by
        refine List.filter_eq_nil_iff.mpr fun c hc => ?_
        have hno := has c hc
        simp_all [Role.declares]
      rw [hL, List.filter_append, hnil, List.nil_append, List.filter_cons, hydef, hyq.2] at hd
      simp only [beq_self_eq_true, Bool.and_self, if_true] at hd
      rw [(List.cons.inj hd).1]

end Capture
end NameBinding
