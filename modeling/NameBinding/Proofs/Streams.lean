import Mathlib.Data.List.Forall2
import Mathlib.Data.Prod.Lex
import NameBinding.Proofs.Acceptance
import NameBinding.Proofs.Representation

/-!
# The stream of some captures

Captures are filtered, sorted, freed of repeated scopes and interleaved with scope ends.
For all that, the stream says neither less nor more than the captures: each definition,
each import and each reference that is not ignored stands in it once, in the order of a
stable sort, and a scope starts exactly at the spans that were captured as scopes.  Scopes
of one span stand side by side once they are sorted, so that only one of them starts, as
long as spans do not differ in anything but their bytes.  And the captures may come in any
order: the sort undoes it, unless it ties captures that differ.

## Main definitions

* `StableSort` — sorted by a key, with ties in their old order.
* `Capture.sortKey` — start, then end backwards, then rank.
* `Capture.isNamed`, `Capture.Announces` — the captures that name something, and the events
  that say so.
* `Capture.Untied` — captures that differ are told apart by the sort.

## Main results

* `StableSort.unique` — there is only one stable sort of a list.
* `Capture.pairwise_scopes_inOrder` — no scope is taken twice.
* `Capture.events_faithful` — **the stream of captures loses nothing and makes nothing up.**
* `Capture.events_eq_of_perm` — **the order of the captures does not matter.**
-/

namespace NameBinding

/-! ### Stable sorts -/

/-- The list `sorted` has the elements of `as` by increasing key, and those of one key in the
order they have in `as`. -/
structure StableSort {α κ : Type} [LinearOrder κ] (key : α → κ) (as sorted : List α) : Prop where
  pairwise : sorted.Pairwise fun a b => key a ≤ key b
  ties : ∀ k, (sorted.filter fun a => key a = k) = as.filter fun a => key a = k

namespace StableSort

variable {α κ : Type} [LinearOrder κ] {key : α → κ} {as sorted sorted' : List α}

theorem mem_iff (h : StableSort key as sorted) {a : α} : a ∈ sorted ↔ a ∈ as := by
  have hties : a ∈ sorted.filter (fun b => key b = key a) ↔ a ∈ as.filter fun b => key b = key a := by
    rw [h.ties]
  simpa using hties

/-- What is left out of a list is left out of its sort. -/
theorem filter (h : StableSort key as sorted) (p : α → Bool) :
    StableSort key (as.filter p) (sorted.filter p) where
  pairwise := h.pairwise.filter p
  ties k := by
    rw [List.filter_comm, h.ties k]
    exact List.filter_comm ..

/-- What is sorted already stays as it is. -/
theorem eq_of_pairwise (h : StableSort key as sorted)
    (has : as.Pairwise fun a b => key a ≤ key b) : sorted = as := by
  induction as generalizing sorted with
  | nil => exact List.eq_nil_iff_forall_not_mem.mpr fun a ha => List.not_mem_nil (h.mem_iff.mp ha)
  | cons a as ih =>
    cases sorted with
    | nil => exact absurd (h.mem_iff.mpr (List.mem_cons_self ..)) List.not_mem_nil
    | cons b sorted =>
      -- each of the two lists starts with a least key, so both start with one key
      have hkey : key b = key a := by
        apply le_antisymm
        · rcases List.mem_cons.mp (h.mem_iff.mpr (List.mem_cons_self ..)) with rfl | ha
          · exact le_refl _
          · exact List.rel_of_pairwise_cons h.pairwise ha
        · rcases List.mem_cons.mp (h.mem_iff.mp (List.mem_cons_self ..)) with rfl | hb
          · exact le_refl _
          · exact List.rel_of_pairwise_cons has hb
      have hhead : b = a := by
        have hties := h.ties (key a)
        rw [List.filter_cons_of_pos (by simpa using hkey), List.filter_cons_of_pos (by simp)] at hties
        exact (List.cons.inj hties).1
      subst hhead
      rw [ih ⟨h.pairwise.of_cons, fun k => ?_⟩ has.of_cons]
      have hties := h.ties k
      rw [List.filter_cons, List.filter_cons] at hties
      split at hties
      · exact (List.cons.inj hties).2
      · exact hties

/-- **There is only one stable sort of a list.** -/
theorem unique (h : StableSort key as sorted) (h' : StableSort key as sorted') :
    sorted = sorted' :=
  eq_of_pairwise ⟨h.pairwise, fun k => (h.ties k).trans (h'.ties k).symm⟩ h'.pairwise

theorem iff_eq (h : StableSort key as sorted) : StableSort key as sorted' ↔ sorted' = sorted :=
  ⟨fun h' => h'.unique h, fun heq => heq ▸ h⟩

end StableSort

namespace Capture

/-- Captures are sorted by start, of one start by end backwards, and then by rank. -/
def sortKey (c : Capture) : Nat ×ₗ Natᵒᵈ ×ₗ Nat :=
  toLex (c.span.start.byte, toLex (OrderDual.toDual c.span.stop.byte, c.role.rank))

theorem precedes_iff_sortKey {a b : Capture} : precedes a b = true ↔ sortKey a ≤ sortKey b := by
  rw [precedes_iff, sortKey, sortKey, Prod.Lex.toLex_le_toLex, Prod.Lex.toLex_le_toLex]
  simp only [OrderDual.toDual_lt_toDual, OrderDual.toDual_inj]
  omega

/-- What is sorted is sorted stably. -/
theorem stableSort_mergeSort (captures : List Capture) :
    StableSort sortKey captures (captures.mergeSort precedes) where
  pairwise := (List.pairwise_mergeSort precedes_trans precedes_total captures).imp
    precedes_iff_sortKey.mp
  ties k := by
    refine filter_mergeSort precedes_trans precedes_total ?_
    rw [List.pairwise_filter]
    refine List.pairwise_of_forall fun a b ha hb => ?_
    rw [decide_eq_true_eq] at ha hb
    rw [precedes_iff_sortKey, ha, hb]

/-- A list in order is the sort of its permutations if nothing in it ties. -/
theorem mergeSort_eq_of_perm {cs sorted : List Capture} (hperm : cs.Perm sorted)
    (hsorted : sorted.Pairwise (precedes · · = true))
    (hties : ∀ a ∈ sorted, ∀ b ∈ sorted, precedes a b = true → precedes b a = true → a = b) :
    cs.mergeSort precedes = sorted := by
  have hperm' := (List.mergeSort_perm cs precedes).trans hperm
  refine List.Perm.eq_of_pairwise (fun a b ha hb => ?_)
    (List.pairwise_mergeSort precedes_trans precedes_total cs) hsorted hperm'
  exact hties a (hperm'.mem_iff.mp ha) b hb

/-! ### Names -/

/-- Does the capture name something in the stream?  References at the span of an ignored
capture do not. -/
def isNamed (captures : List Capture) (c : Capture) : Bool :=
  match c.role with
  | .definition _ | .imported => true
  | .reference => !captures.any fun d => d.role == .ignored && d.span == c.span
  | .scope | .ignored => false

/-- The event says what the capture names. -/
inductive Announces : Capture → Event → Prop
  | definition {c : Capture} {scoping : Scoping} (hrole : c.role = .definition scoping) :
      Announces c (.definition c.span c.text scoping c.symbol)
  | imported {c : Capture} (hrole : c.role = .imported) :
      Announces c (.imported c.span (importedName c.text))
  | reference {c : Capture} (hrole : c.role = .reference) :
      Announces c (.reference c.span c.text c.symbol)

variable {captures : List Capture}

theorem mem_ignoredSpans {s : Span} :
    s ∈ ignoredSpans captures ↔ (captures.any fun d => d.role == .ignored && d.span == s) = true := by
  simp only [ignoredSpans, List.mem_map, List.mem_filter, List.any_eq_true, Bool.and_eq_true,
    beq_iff_eq, and_assoc]

/-- Of what is kept all but the scopes name something. -/
theorem filter_kept (captures : List Capture) :
    (kept captures).filter (·.role != .scope) = captures.filter (isNamed captures) := by
  rw [kept, List.filter_filter]
  refine List.filter_congr fun c _ => ?_
  cases hrole : c.role with
  | reference =>
    simp only [isNamed, hrole, mem_ignoredSpans]
    cases captures.any fun d => d.role == .ignored && d.span == c.span <;> rfl
  | scope | definition | imported | ignored => simp [isNamed, hrole]

/-- What names something is announced. -/
theorem exists_announces {c : Capture} (h : isNamed captures c = true) :
    ∃ e, c.toEvent? = some e ∧ Announces c e := by
  cases hrole : c.role with
  | definition scoping => exact ⟨_, by simp only [toEvent?, hrole], .definition hrole⟩
  | imported => exact ⟨_, by simp only [toEvent?, hrole], .imported hrole⟩
  | reference => exact ⟨_, by simp only [toEvent?, hrole], .reference hrole⟩
  | scope | ignored => simp [isNamed, hrole] at h

/-- What names something is announced, one by one. -/
theorem forall₂_announces {cs : List Capture} (h : ∀ c ∈ cs, isNamed captures c = true) :
    List.Forall₂ Announces cs (cs.filterMap toEvent?) := by
  induction cs with
  | nil => exact .nil
  | cons c cs ih =>
    obtain ⟨e, he, hannounces⟩ := exists_announces (h c (List.mem_cons_self ..))
    rw [List.filterMap_cons_some he]
    exact .cons hannounces (ih fun d hd => h d (List.mem_cons_of_mem _ hd))

/-! ### Events and captures -/

theorem span_of_toEvent? {c : Capture} {e : Event} (h : c.toEvent? = some e) : e.span = c.span := by
  unfold toEvent? at h
  split at h <;> cases h <;> rfl

/-- Some of the events that are no scope ends, as events of captures. -/
theorem filter_events {p : Event → Bool} (hp : ∀ s, p (.scopeEnd s) = false) :
    (events captures).filter p = ((inOrder captures).filterMap toEvent?).filter p := by
  have hguard : ∀ es : List Event, es.filter p = es.filterMap (Option.guard (p · = true)) := by
    intro es
    rw [List.filterMap_eq_filter]
    simp
  rw [hguard, hguard, events, filterMap_emit (by simp [Option.guard, hp]), List.filterMap_filterMap]

/-- **The events that name something are those of the named captures in order.** -/
theorem filter_not_bracket (captures : List Capture) :
    (events captures).filter (!·.isBracket) =
      (((kept captures).mergeSort precedes).filter (·.role != .scope)).filterMap toEvent? := by
  rw [filter_events (fun _ => rfl), ← filter_inOrder (by simp), List.filter_filterMap,
    List.filterMap_filter]
  congr 1
  funext c
  cases hrole : c.role <;> simp [toEvent?, hrole, Event.isBracket]

/-- The captures that name something, in order, are a stable sort of them. -/
theorem stableSort_named (captures : List Capture) :
    StableSort sortKey (captures.filter (isNamed captures))
      (((kept captures).mergeSort precedes).filter (·.role != .scope)) := by
  rw [← filter_kept]
  exact (stableSort_mergeSort (kept captures)).filter _

/-- Events that are no scope ends come in the order of their starts. -/
theorem pairwise_start (captures : List Capture) :
    ((events captures).filter (!·.isEnd)).Pairwise fun a b =>
      a.span.start.byte ≤ b.span.start.byte := by
  rw [filter_events fun _ => rfl]
  refine List.Pairwise.filter _ ?_
  rw [List.pairwise_filterMap]
  refine (pairwise_inOrder captures).imp fun {a b} hab e he e' he' => ?_
  rw [span_of_toEvent? he, span_of_toEvent? he']
  rw [precedes_iff] at hab
  omega

/-! ### Scope starts -/

/-- Captures whose spans have the same bytes have the same span. -/
def SpansByBytes (captures : List Capture) : Prop :=
  ∀ a ∈ captures, ∀ b ∈ captures, a.span.start.byte = b.span.start.byte →
    a.span.stop.byte = b.span.stop.byte → a.span = b.span

/-- Two captures that do not both open the scope of one span. -/
def Apart (a b : Capture) : Prop := a.role = .scope → b.role = .scope → a.span ≠ b.span

theorem nodup_scopes {cs : List Capture} (h : cs.Pairwise Apart) :
    ((cs.filter (·.role == .scope)).map Capture.span).Nodup := by
  rw [List.Nodup, List.pairwise_map, List.pairwise_filter]
  refine h.imp fun hapart ha hb => ?_
  rw [beq_iff_eq] at ha hb
  exact hapart ha hb

/-- **Scopes that are sorted stand side by side with those of their span**, so that only the
first one is left. -/
theorem pairwise_dropReopened : ∀ (cs : List Capture) (last : Capture),
    SpansByBytes (last :: cs) → (last :: cs).Pairwise (precedes · · = true) →
    (last :: dropReopened last cs).Pairwise Apart := by
  intro cs
  induction cs with
  | nil => intro last _ _; exact List.pairwise_singleton ..
  | cons c cs ih =>
    intro last hbytes hsorted
    rw [dropReopened]
    split
    · -- without the scope that is dropped
      have hsub : (last :: cs).Sublist (last :: c :: cs) := (List.sublist_cons_self c cs).cons_cons last
      exact ih last (fun a ha b hb => hbytes a (hsub.subset ha) b (hsub.subset hb))
        (hsorted.sublist hsub)
    · next hother =>
      have hrest := ih c (fun a ha b hb => hbytes a (List.mem_cons_of_mem _ ha) b
        (List.mem_cons_of_mem _ hb)) hsorted.of_cons
      rw [List.pairwise_cons]
      refine ⟨fun d hd hlast hdrole hspan => hother ?_, hrest⟩
      have hd' : d ∈ c :: cs := List.mem_cons.mpr ((List.mem_cons.mp hd).imp_right
        ((dropReopened_sublist cs c).subset ·))
      -- what stands between two scopes of one span is one of them, too
      have hlc := List.rel_of_pairwise_cons hsorted (List.mem_cons_self ..)
      have hcd : precedes c d = true := by
        rcases List.mem_cons.mp hd' with rfl | hd'
        · exact (precedes_iff.mpr (by omega))
        · exact List.rel_of_pairwise_cons hsorted.of_cons hd'
      rw [precedes_iff, hlast] at hlc
      rw [precedes_iff, hdrole, ← hspan] at hcd
      simp only [Role.rank] at hlc hcd
      have hcrole : c.role = .scope := by
        cases hr : c.role <;> simp only [hr] at hcd <;> first | rfl | omega
      have hcspan : last.span = c.span :=
        hbytes last (List.mem_cons_self ..) c (by simp) (by omega) (by omega)
      simp [sameScope, hlast, hcrole, hcspan]

/-- **No scope is taken twice.** -/
theorem pairwise_scopes_inOrder (hbytes : SpansByBytes captures) :
    (inOrder captures).Pairwise Apart := by
  have hsorted := List.pairwise_mergeSort precedes_trans precedes_total (kept captures)
  have hmem : ∀ c ∈ (kept captures).mergeSort precedes, c ∈ captures := by
    intro c hc
    exact (List.mem_filter.mp (List.mem_mergeSort.mp hc)).1
  rw [inOrder]
  split
  · exact .nil
  · next c cs heq =>
    rw [heq] at hsorted hmem
    exact pairwise_dropReopened cs c
      (fun a ha b hb => hbytes a (hmem a ha) b (hmem b hb)) hsorted

end Capture

/-- The span of a scope that starts. -/
def Event.startSpan? : Event → Option Span
  | .scopeStart s => some s
  | .scopeEnd _ | .definition .. | .imported .. | .reference .. => none

namespace Capture

variable {captures : List Capture}

/-- Scopes start at the spans of the scopes that are taken. -/
theorem startSpans_events (captures : List Capture) :
    (events captures).filterMap Event.startSpan? =
      ((inOrder captures).filter (·.role == .scope)).map Capture.span := by
  rw [events, filterMap_emit (fun _ => rfl)]
  induction inOrder captures with
  | nil => rfl
  | cons c cs ih =>
    rw [List.filterMap_cons, List.filter_cons, ih]
    cases hrole : c.role <;> simp [toEvent?, hrole, Event.startSpan?]

theorem mem_startSpans {s : Span} :
    s ∈ (events captures).filterMap Event.startSpan? ↔
      ∃ c ∈ captures, c.role = .scope ∧ c.span = s := by
  rw [startSpans_events, ← exists_scope_inOrder_iff]
  simp only [List.mem_map, List.mem_filter, beq_iff_eq, and_assoc]

theorem nodup_startSpans (hbytes : SpansByBytes captures) :
    ((events captures).filterMap Event.startSpan?).Nodup := by
  rw [startSpans_events]
  exact nodup_scopes (pairwise_scopes_inOrder hbytes)

/-- **The stream of captures loses nothing and makes nothing up.**  What it names are the
definitions, the imports and the references that are not ignored, in the order of their
stable sort; a scope starts at each span captured as a scope and at no other, and only
once if spans are determined by their bytes; and apart from scope ends, nothing comes
before what starts earlier. -/
theorem events_faithful (captures : List Capture) :
    (∃ sorted, (∀ cs, StableSort sortKey (captures.filter (isNamed captures)) cs ↔ cs = sorted) ∧
        List.Forall₂ Announces sorted ((events captures).filter (!·.isBracket))) ∧
      (∀ s, s ∈ (events captures).filterMap Event.startSpan? ↔
        ∃ c ∈ captures, c.role = .scope ∧ c.span = s) ∧
      (SpansByBytes captures → ((events captures).filterMap Event.startSpan?).Nodup) ∧
      ((events captures).filter (!·.isEnd)).Pairwise fun a b =>
        a.span.start.byte ≤ b.span.start.byte := by
  have hsort := stableSort_named captures
  refine ⟨⟨_, fun cs => hsort.iff_eq, ?_⟩, fun s => mem_startSpans, nodup_startSpans,
    pairwise_start captures⟩
  rw [filter_not_bracket]
  exact forall₂_announces fun c hc => (List.mem_filter.mp (hsort.mem_iff.mp hc)).2

/-- A scope captured twice with other captures in between, a name that is defined and
ignored at one span, and an import in quotes. -/
theorem events_faithful_ignored :
    let span (a b : Nat) : Span := ⟨⟨a, 0, a⟩, ⟨b, 0, b⟩⟩
    let captures : List Capture :=
      [⟨.reference, none, span 2 3, "x"⟩, ⟨.scope, none, span 0 9, ""⟩,
        ⟨.imported, none, span 5 8, "'a/b'"⟩, ⟨.ignored, none, span 2 3, "x"⟩,
        ⟨.scope, none, span 0 9, ""⟩, ⟨.definition .hoisted, some "var", span 2 3, "x"⟩]
    SpansByBytes captures ∧
      ((events captures).filterMap Event.startSpan?).Nodup ∧
      span 0 9 ∈ (events captures).filterMap Event.startSpan? ∧
      ∃ sorted, StableSort sortKey (captures.filter (isNamed captures)) sorted ∧
        List.Forall₂ Announces sorted ((events captures).filter (!·.isBracket)) := by
  intro span captures
  have hbytes : SpansByBytes captures := by
    unfold SpansByBytes
    decide
  obtain ⟨⟨sorted, hsort, hnames⟩, hstarts, honce, -⟩ := events_faithful captures
  refine ⟨hbytes, honce hbytes, (hstarts _).mpr ?_, sorted, (hsort sorted).mpr rfl, hnames⟩
  exact ⟨⟨.scope, none, span 0 9, ""⟩, by simp [captures], rfl, rfl⟩

/-! ### Captures in another order -/

/-- Captures that agree in start, end and rank are equal, so that the sort is free to take
them in either order. -/
def Untied (captures : List Capture) : Prop :=
  ∀ a ∈ captures, ∀ b ∈ captures, a.span.start.byte = b.span.start.byte →
    a.span.stop.byte = b.span.stop.byte → a.role.rank = b.role.rank → a = b

theorem Untied.eq_of_precedes (h : Untied captures) {a b : Capture} (ha : a ∈ captures)
    (hb : b ∈ captures) (hab : precedes a b = true) (hba : precedes b a = true) : a = b := by
  rw [precedes_iff] at hab hba
  exact h a ha b hb (by omega) (by omega) (by omega)

variable {captures' : List Capture}

/-- What is kept depends on which spans are ignored, and not on where this is said. -/
theorem perm_kept (hperm : captures.Perm captures') : (kept captures).Perm (kept captures') := by
  have hignored : ∀ s, s ∈ ignoredSpans captures ↔ s ∈ ignoredSpans captures' := fun s =>
    ((hperm.filter _).map _).mem_iff
  rw [kept, kept]
  refine (hperm.filter _).trans (.of_eq (List.filter_congr fun c _ => ?_))
  cases c.role <;> simp [hignored]

theorem inOrder_eq_of_perm (huntied : Untied captures) (hperm : captures.Perm captures') :
    inOrder captures = inOrder captures' := by
  have hsort : (kept captures).mergeSort precedes = (kept captures').mergeSort precedes := by
    have hmem : ∀ c ∈ (kept captures').mergeSort precedes, c ∈ captures := by
      intro c hc
      exact hperm.mem_iff.mpr (List.mem_filter.mp (List.mem_mergeSort.mp hc)).1
    refine mergeSort_eq_of_perm ((perm_kept hperm).trans (List.mergeSort_perm ..).symm)
      (List.pairwise_mergeSort precedes_trans precedes_total _) ?_
    intro a ha b hb
    exact huntied.eq_of_precedes (hmem a ha) (hmem b hb)
  rw [inOrder, hsort, ← inOrder]

/-- **The order of the captures does not matter**, if any two of them that agree in start, end
and rank are equal. -/
theorem events_eq_of_perm (huntied : Untied captures) (hperm : captures.Perm captures') :
    events captures = events captures' := by
  rw [events, inOrder_eq_of_perm huntied hperm, ← events]

/-- Two scopes that cross, one of them captured twice, and an ignored reference, from front to
back and from back to front. -/
theorem events_eq_of_perm_reversed :
    let span (a b : Nat) : Span := ⟨⟨a, 0, a⟩, ⟨b, 0, b⟩⟩
    let captures : List Capture :=
      [⟨.scope, none, span 4 9, ""⟩, ⟨.reference, none, span 2 3, "x"⟩,
        ⟨.scope, none, span 0 6, ""⟩, ⟨.definition .hoisted, some "var", span 4 9, "f"⟩,
        ⟨.ignored, none, span 2 3, "x"⟩, ⟨.scope, none, span 0 6, ""⟩,
        ⟨.reference, none, span 5 6, "f"⟩]
    Untied captures ∧ captures.Perm captures.reverse ∧
      events captures = events captures.reverse := by
  intro span captures
  have huntied : Untied captures := by
    unfold Untied
    decide
  have hperm : captures.Perm captures.reverse := (List.reverse_perm captures).symm
  exact ⟨huntied, hperm, events_eq_of_perm huntied hperm⟩

end Capture
end NameBinding
