import NameBinding.Proofs.Streams

/-!
# Open scopes are enclosing scopes

A scope is closed only while it is the innermost open one, and only when a capture comes
that starts at or after its end.  If scopes do not cross other captures, this is enough:
whenever a capture is announced, the scopes that have started and not ended are those that
contain it, each once, and each was opened inside the one before it.

## Main definitions

* `Capture.WellNested` — no capture is empty, and scopes cross no capture.
* `Event.openAfter` — the scopes that have started and not ended.
* `Capture.openedThrough` — the scopes that are open after some captures.

## Main results

* `Capture.emit_split` — the scopes that are open before an event, by the captures before it.
* `Capture.OpenScopes.run` — taking one capture after the other keeps the invariant.
* `Capture.openAfter_events` — **the scopes open at a capture are those around it.**
-/

namespace NameBinding

/-! ### Started and not ended -/

namespace Event

/-- The open scopes after an event, the last one that started first. -/
def openedNext (opened : List Span) : Event → List Span
  | .scopeStart s => s :: opened
  | .scopeEnd s => opened.erase s
  | .definition .. | .imported .. | .reference .. => opened

/-- The scopes that have started and not ended after some events, the last one that
started first, where `opened` are open before. -/
def openAfter (opened : List Span) (es : List Event) : List Span := es.foldl openedNext opened

theorem openAfter_append (opened : List Span) (es es' : List Event) :
    openAfter opened (es ++ es') = openAfter (openAfter opened es) es' :=
  List.foldl_append

/-- Ending the latest scopes leaves the others open. -/
theorem openAfter_ends : ∀ ended opened : List Span,
    openAfter (ended ++ opened) (ended.map .scopeEnd) = opened := by
  intro ended opened
  induction ended with
  | nil => rfl
  | cons s ended ih =>
    rw [List.map_cons, openAfter, List.foldl_cons, List.cons_append, openedNext,
      List.erase_cons_head]
    exact ih

end Event

open Event

namespace Capture

/-! ### Captures before an event -/

/-- The open scopes, innermost first, after some captures are taken. -/
def openedThrough (opened : List Span) (cs : List Capture) : List Span :=
  cs.foldl (fun opened c => c.openedBy (remaining c.span.start.byte opened)) opened

theorem openedThrough_cons (opened : List Span) (c : Capture) (cs : List Capture) :
    openedThrough opened (c :: cs) =
      openedThrough (c.openedBy (remaining c.span.start.byte opened)) cs := rfl

/-- An event opens what its capture opens. -/
theorem openAfter_toEvent? (c : Capture) (opened : List Span) :
    openAfter opened c.toEvent?.toList = c.openedBy opened := by
  cases hrole : c.role <;> simp [toEvent?, openedBy, hrole, openAfter, openedNext]

/-- Where two lists in a row are cut at an element, the cut is in the first or in the
second. -/
theorem split_append {α : Type} {xs ys before after : List α} {a : α}
    (h : xs ++ ys = before ++ a :: after) :
    (∃ rest, xs = before ++ a :: rest) ∨ ∃ rest, before = xs ++ rest ∧ ys = rest ++ a :: after := by
  rcases List.append_eq_append_iff.mp h with ⟨rest, hbefore, hys⟩ | ⟨rest, hxs, hafter⟩
  · exact Or.inr ⟨rest, hbefore, hys⟩
  · cases rest with
    | nil =>
      rw [List.append_nil] at hxs
      exact Or.inr ⟨[], by rw [hxs, List.append_nil], hafter.symm⟩
    | cons b rest =>
      rw [List.cons_append] at hafter
      obtain ⟨rfl, -⟩ := List.cons.inj hafter
      exact Or.inl ⟨rest, hxs⟩

theorem isEnd_of_mem_ends {ended : List Span} {e : Event} (h : e ∈ ended.map .scopeEnd) :
    e.isEnd = true := by
  obtain ⟨s, -, rfl⟩ := List.mem_map.mp h
  rfl

/-- **The scopes that are open before an event** are those that the captures before it left
open, without those that have ended where its own capture starts. -/
theorem emit_split : ∀ (cs : List Capture) {opened : List Span} {before after : List Event}
    {e : Event}, emit opened cs = before ++ e :: after → e.isEnd = false →
    ∃ done c rest, cs = done ++ c :: rest ∧ c.toEvent? = some e ∧
      openAfter opened before = remaining c.span.start.byte (openedThrough opened done) := by
  intro cs
  induction cs with
  | nil =>
    intro opened before after e h he
    have hmem : e ∈ opened.map .scopeEnd := by
      rw [emit] at h
      simp [h]
    rw [isEnd_of_mem_ends hmem] at he
    cases he
  | cons c cs ih =>
    intro opened before after e h he
    have hends : openAfter opened ((ended c.span.start.byte opened).map .scopeEnd) =
        remaining c.span.start.byte opened := by
      have hopened := openAfter_ends (ended c.span.start.byte opened)
        (remaining c.span.start.byte opened)
      rwa [ended_append_remaining] at hopened
    rw [emit, List.append_assoc] at h
    rcases split_append h with ⟨rest, hin⟩ | ⟨before, rfl, hafter⟩
    · have hmem : e ∈ (ended c.span.start.byte opened).map .scopeEnd := by simp [hin]
      rw [isEnd_of_mem_ends hmem] at he
      cases he
    · rcases split_append hafter with ⟨rest, hin⟩ | ⟨before, rfl, hlater⟩
      · -- the event of the capture itself
        obtain ⟨rfl, hevent⟩ : before = [] ∧ c.toEvent? = some e := by
          cases hevent : c.toEvent? with
          | none => simp [hevent] at hin
          | some e' => cases before <;> simp_all
        exact ⟨[], c, cs, rfl, hevent, by rw [List.append_nil, hends]; rfl⟩
      · obtain ⟨done, d, rest, rfl, hevent, hopened⟩ := ih hlater he
        refine ⟨c :: done, d, rest, rfl, hevent, ?_⟩
        rw [openAfter_append, openAfter_append, hends, openAfter_toEvent?, hopened,
          openedThrough_cons]

/-! ### Captures that do not cross scopes -/

/-- No capture is empty, a span is determined by its bytes, and each scope is nested with
every other capture or disjoint from it. -/
structure WellNested (captures : List Capture) : Prop where
  nonempty : ∀ c ∈ captures, c.span.start.byte < c.span.stop.byte
  byBytes : SpansByBytes captures
  nested : ∀ a ∈ captures, a.role = .scope → ∀ b ∈ captures,
    a.span.contains b.span = true ∨ b.span.contains a.span = true ∨
      a.span.stop.byte ≤ b.span.start.byte ∨ b.span.stop.byte ≤ a.span.start.byte

theorem exists_bound (captures : List Capture) :
    ∃ bound, ∀ c ∈ captures, c.span.stop.byte < bound := by
  induction captures with
  | nil => exact ⟨0, by simp⟩
  | cons c captures ih =>
    obtain ⟨bound, hbound⟩ := ih
    refine ⟨bound + c.span.stop.byte + 1, fun d hd => ?_⟩
    rcases List.mem_cons.mp hd with rfl | hd
    · omega
    · have hlt := hbound d hd
      omega

namespace WellNested

variable {captures : List Capture}

theorem mono {cs : List Capture} (h : WellNested captures) (hsub : ∀ c ∈ cs, c ∈ captures) :
    WellNested cs where
  nonempty c hc := h.nonempty c (hsub c hc)
  byBytes a ha b hb := h.byBytes a (hsub a ha) b (hsub b hb)
  nested a ha hrole b hb := h.nested a (hsub a ha) hrole b (hsub b hb)

/-- A text that is long enough has the captures inside. -/
theorem exists_regular (h : WellNested captures) : ∃ top, Regular top captures := by
  obtain ⟨bound, hbound⟩ := exists_bound captures
  refine ⟨⟨⟨0, 0, 0⟩, ⟨bound, 0, 0⟩⟩, h.nonempty, ?_, ?_, ?_⟩
  · intro c hc
    rw [Span.contains_iff]
    exact ⟨Nat.zero_le _, Nat.le_of_lt (hbound c hc)⟩
  · intro a ha b hb hrole _
    exact h.nested a ha hrole b hb
  · -- no capture ends where the text ends
    intro s hs t ht hstart hstop
    rcases List.mem_cons.mp hs with rfl | hs
    · rcases List.mem_cons.mp ht with rfl | ht
      · rfl
      · obtain ⟨c, hc, rfl⟩ := List.mem_map.mp ht
        have hlt := hbound c hc
        simp only at hstop
        omega
    · obtain ⟨c, hc, rfl⟩ := List.mem_map.mp hs
      rcases List.mem_cons.mp ht with rfl | ht
      · have hlt := hbound c hc
        simp only at hstop
        omega
      · obtain ⟨d, hd, rfl⟩ := List.mem_map.mp ht
        exact h.byBytes c hc d hd hstart hstop

/-- A scope that started before a capture and has not ended where it starts contains it. -/
theorem contains_of_lt (h : WellNested captures) {c d : Capture} (hc : c ∈ captures)
    (hd : d ∈ captures) (hrole : d.role = .scope) (hprec : precedes d c = true)
    (hlt : c.span.start.byte < d.span.stop.byte) : d.span.contains c.span = true := by
  have hcn := h.nonempty c hc
  rw [precedes_iff] at hprec
  rcases h.nested d hd hrole c hc with hcase | hcase | hcase | hcase
  · exact hcase
  · rw [Span.contains_iff] at hcase ⊢
    omega
  · omega
  · omega

end WellNested

/-! ### Open scopes -/

/-- **Taking one capture after the other keeps the invariant** of the open scopes. -/
theorem OpenScopes.run {top : Span} {rest : List Capture} : ∀ (cs done : List Capture)
    {opened : List Span}, Regular top (done ++ (cs ++ rest)) →
    (done ++ (cs ++ rest)).Pairwise (precedes · · = true) →
    OpenScopes done (cs ++ rest) opened → OpenScopes (done ++ cs) rest (openedThrough opened cs) := by
  intro cs
  induction cs with
  | nil =>
    intro done opened _ _ h
    rwa [List.append_nil]
  | cons c cs ih =>
    intro done opened hreg hsorted h
    have hnext := h.take hreg hsorted
    have hassoc : done ++ (c :: cs ++ rest) = done ++ [c] ++ (cs ++ rest) := by simp
    rw [hassoc] at hreg hsorted
    have hrun := ih (done ++ [c]) hreg hsorted hnext
    rw [List.append_assoc, List.singleton_append] at hrun
    exact hrun

/-- No scope is opened that does not start. -/
theorem openedThrough_sublist : ∀ (cs : List Capture) (opened : List Span),
    (openedThrough opened cs).Sublist
      (((cs.filter (·.role == .scope)).map Capture.span).reverse ++ opened) := by
  intro cs
  induction cs with
  | nil => intro opened; exact List.Sublist.refl _
  | cons c cs ih =>
    intro opened
    rw [openedThrough_cons]
    refine (ih _).trans ?_
    have hremaining : (remaining c.span.start.byte opened).Sublist opened :=
      List.dropWhile_sublist _
    rw [openedBy, List.filter_cons]
    split
    · rw [List.map_cons, List.reverse_cons, List.append_assoc, List.singleton_append]
      exact (hremaining.cons_cons _).append_left _
    · exact hremaining.append_left _

/-- No scope is open twice. -/
theorem nodup_openedThrough {cs : List Capture} (h : cs.Pairwise Apart) :
    (openedThrough [] cs).Nodup := by
  have hsub := openedThrough_sublist cs []
  rw [List.append_nil] at hsub
  exact (List.pairwise_reverse.mpr ((nodup_scopes h).imp Ne.symm)).sublist hsub

/-- Once what has ended is closed, the open scopes are the scopes around the next capture. -/
theorem OpenScopes.mem_iff {done rest : List Capture} {c : Capture} {opened : List Span}
    (hnested : WellNested (done ++ c :: rest))
    (hsorted : (done ++ c :: rest).Pairwise (precedes · · = true))
    (hapart : (done ++ c :: rest).Pairwise Apart) (h : OpenScopes done (c :: rest) opened)
    (hlate : ∀ s ∈ opened, c.span.start.byte < s.stop.byte) {s : Span} :
    s ∈ opened ↔ (∃ d ∈ done ++ c :: rest, d.role = .scope ∧ d.span = s) ∧
      s.contains c.span = true ∧ (c.role = .scope → s ≠ c.span) := by
  obtain ⟨top, hreg⟩ := hnested.exists_regular
  constructor
  · intro hs
    obtain ⟨d, hd, hrole, rfl⟩ := h.started s hs
    have hd' : d ∈ done ++ c :: rest := List.mem_append_left _ hd
    have hc : c ∈ done ++ c :: rest := by simp
    refine ⟨⟨d, hd', hrole, rfl⟩, ?_, ?_⟩
    · have hprec := (List.pairwise_append.mp hsorted).2.2 d hd c (List.mem_cons_self ..)
      exact hnested.contains_of_lt hc hd' hrole hprec (hlate _ hs)
    · exact (List.pairwise_append.mp hapart).2.2 d hd c (List.mem_cons_self ..) hrole
  · rintro ⟨⟨d, hd, hrole, rfl⟩, hcontains, hlarger⟩
    rcases List.mem_append.mp hd with hd | hd
    · exact h.mem_of_contains hreg hd hrole hcontains
    · -- a scope that comes later contains the capture only if it is the same scope
      obtain ⟨hcrole, hspan⟩ := OpenScopes.eq_of_contains_later hreg hsorted hd hrole hcontains
      exact absurd hspan (hlarger hcrole)

theorem isStart_of_toEvent? {c : Capture} {e : Event} (h : c.toEvent? = some e) :
    e.isStart = true ↔ c.role = .scope := by
  unfold toEvent? at h
  split at h <;> cases h <;> simp_all [Event.isStart]

/-- **The scopes open at a capture are those around it.**  When the event of a definition,
an import, a reference or a scope comes, the scopes that have started and not ended are
the scopes captured around it, for a scope only the larger ones, each once, and each was
opened inside the one before it. -/
theorem openAfter_events {captures : List Capture} (hcaptures : WellNested captures)
    {before after : List Event} {e : Event} (h : events captures = before ++ e :: after)
    (he : e.isEnd = false) :
    ((openAfter [] before).Pairwise fun inner outer =>
        outer.contains inner = true ∧ outer ≠ inner) ∧
      ∀ s, s ∈ openAfter [] before ↔
        (∃ c ∈ captures, c.role = .scope ∧ c.span = s) ∧ s.contains e.span = true ∧
          (e.isStart = true → s ≠ e.span) := by
  obtain ⟨done, c, rest, horder, hevent, hopened⟩ := emit_split (inOrder captures) h he
  have hnested : WellNested (done ++ c :: rest) :=
    hcaptures.mono fun d hd => mem_of_mem_inOrder (horder ▸ hd)
  have hsorted := pairwise_inOrder captures
  have hapart := pairwise_scopes_inOrder hcaptures.byBytes
  rw [horder] at hsorted hapart
  obtain ⟨top, hreg⟩ := hnested.exists_regular
  have hrun : OpenScopes done (c :: rest) (openedThrough [] done) :=
    OpenScopes.run done [] hreg hsorted (.nil _)
  have hlate : ∀ s ∈ openAfter [] before, c.span.start.byte < s.stop.byte := by
    intro s hs
    rw [hopened] at hs
    exact ((mem_remaining hrun.nested).mp hs).2
  have hopen := hrun.close hsorted
  rw [← hopened] at hopen
  refine ⟨?_, fun s => ?_⟩
  · have hnodup : (openAfter [] before).Nodup := by
      rw [hopened]
      exact (nodup_openedThrough (List.pairwise_append.mp hapart).1).sublist
        (List.dropWhile_sublist _)
    exact (hopen.nested.and hnodup).imp fun hboth => ⟨hboth.1, hboth.2.symm⟩
  · rw [hopen.mem_iff hnested hsorted hapart hlate, ← horder, exists_scope_inOrder_iff,
      span_of_toEvent? hevent, isStart_of_toEvent? hevent]

/-- A reference behind a scope that ends where the scope around the reference starts; both
lie in a scope that is captured twice. -/
theorem openAfter_events_touching :
    let span (a b : Nat) : Span := ⟨⟨a, 0, a⟩, ⟨b, 0, b⟩⟩
    let captures : List Capture :=
      [⟨.reference, none, span 6 7, "x"⟩, ⟨.scope, none, span 2 8, ""⟩, ⟨.scope, none, span 5 8, ""⟩,
        ⟨.scope, none, span 0 9, ""⟩, ⟨.scope, none, span 2 5, ""⟩, ⟨.scope, none, span 2 8, ""⟩]
    let before : List Event :=
      [.scopeStart (span 0 9), .scopeStart (span 2 8), .scopeStart (span 2 5), .scopeEnd (span 2 5),
        .scopeStart (span 5 8)]
    let after : List Event := [.scopeEnd (span 5 8), .scopeEnd (span 2 8), .scopeEnd (span 0 9)]
    WellNested captures ∧
      events captures = before ++ .reference (span 6 7) "x" none :: after ∧
      span 5 8 ∈ openAfter [] before ∧ span 2 8 ∈ openAfter [] before ∧
      span 2 5 ∉ openAfter [] before := by
  intro span captures before after
  have hnested : WellNested captures := by
    refine ⟨by decide, ?_, by decide⟩
    unfold SpansByBytes
    decide
  have hsort : (kept captures).mergeSort precedes =
      [⟨.scope, none, span 0 9, ""⟩, ⟨.scope, none, span 2 8, ""⟩, ⟨.scope, none, span 2 8, ""⟩,
        ⟨.scope, none, span 2 5, ""⟩, ⟨.scope, none, span 5 8, ""⟩,
        ⟨.reference, none, span 6 7, "x"⟩] :=
    mergeSort_eq_of_perm (by decide) (by decide) (by decide)
  have hevents : events captures = before ++ .reference (span 6 7) "x" none :: after := by
    rw [events, inOrder, hsort]
    rfl
  obtain ⟨-, hopen⟩ := openAfter_events hnested hevents rfl
  refine ⟨hnested, hevents, (hopen _).mpr ?_, (hopen _).mpr ?_, fun hin => ?_⟩
  · exact ⟨⟨⟨.scope, none, span 5 8, ""⟩, by simp [captures], rfl, rfl⟩, by decide, by decide⟩
  · exact ⟨⟨⟨.scope, none, span 2 8, ""⟩, by simp [captures], rfl, rfl⟩, by decide, by decide⟩
  · exact absurd ((hopen _).mp hin).2.1 (by decide)

end Capture
end NameBinding
