import NameBinding.Proofs.CaptureOrder
import NameBinding.Proofs.Growth

/-!
# Scopes as regions of the text

Captures of a parsed text are regular: none is empty, all lie inside the text, and
any two scopes are nested or disjoint.  Then the scopes that are open while captures
are taken in order are exactly those around the next capture, innermost first, and so
the innermost open one that contains it is the smallest of all scopes that do.

## Main definitions

* `Span.IsInnermost` — the smallest of some spans that contain a given one.
* `Capture.Regular` — what a parser promises of captures.
* `Capture.scopeSpans`, `Capture.Home` — the scopes of a text, and the scope in which
  a capture binds its name.
* `Capture.OpenScopes` — which scopes are open between two captures.

## Main results

* `OpenScopes.close`, `OpenScopes.take` — one capture keeps the invariant.
* `OpenScopes.innermost` — **the innermost open scope is the smallest one.**
-/

namespace NameBinding

namespace Span

theorem contains_iff {s t : Span} :
    s.contains t = true ↔ s.start.byte ≤ t.start.byte ∧ t.stop.byte ≤ s.stop.byte := by
  simp [contains]

theorem contains_refl (s : Span) : s.contains s = true := by
  simp [contains]

/-- Of the scopes that contain `t`, `s` is the smallest. -/
structure IsInnermost (scopes : List Span) (t s : Span) : Prop where
  mem : s ∈ scopes
  contains : s.contains t = true
  least : ∀ u ∈ scopes, u.contains t = true → u.contains s = true

theorem IsInnermost.congr {scopes scopes' : List Span} {t s : Span}
    (h : IsInnermost scopes t s) (hmem : ∀ u, u ∈ scopes ↔ u ∈ scopes') :
    IsInnermost scopes' t s :=
  ⟨(hmem s).mp h.mem, h.contains, fun u hu => h.least u ((hmem u).mpr hu)⟩

/-- Two spans that contain each other have the same bytes. -/
theorem bytes_eq_of_contains {s t : Span} (hst : s.contains t = true) (hts : t.contains s = true) :
    s.start.byte = t.start.byte ∧ s.stop.byte = t.stop.byte := by
  rw [contains_iff] at hst hts
  omega

end Span

namespace Capture

/-- The spans of the scopes of a text, of which the whole text is one. -/
def scopeSpans (top : Span) (captures : List Capture) : List Span :=
  top :: (captures.filter (·.role == .scope)).map Capture.span

theorem mem_scopeSpans {top s : Span} {captures : List Capture} :
    s ∈ scopeSpans top captures ↔ s = top ∨ ∃ c ∈ captures, c.role = .scope ∧ c.span = s := by
  simp only [scopeSpans, List.mem_cons, List.mem_map, List.mem_filter, beq_iff_eq]
  constructor
  · rintro (h | ⟨c, ⟨hc, hr⟩, hs⟩)
    · exact Or.inl h
    · exact Or.inr ⟨c, hc, hr, hs⟩
  · rintro (h | ⟨c, hc, hr, hs⟩)
    · exact Or.inl h
    · exact Or.inr ⟨c, ⟨hc, hr⟩, hs⟩

/-- Captures as a parser gives them: none is empty, all lie inside the text, scopes
are nested or disjoint, and a span is determined by its bytes. -/
structure Regular (top : Span) (captures : List Capture) : Prop where
  nonempty : ∀ c ∈ captures, c.span.start.byte < c.span.stop.byte
  inside : ∀ c ∈ captures, top.contains c.span = true
  nested : ∀ a ∈ captures, ∀ b ∈ captures, a.role = .scope → b.role = .scope →
    a.span.contains b.span = true ∨ b.span.contains a.span = true ∨
      a.span.stop.byte ≤ b.span.start.byte ∨ b.span.stop.byte ≤ a.span.start.byte
  eq_of_bytes : ∀ s ∈ top :: captures.map Capture.span, ∀ t ∈ top :: captures.map Capture.span,
    s.start.byte = t.start.byte → s.stop.byte = t.stop.byte → s = t

/-- The scope in which a capture binds its name is `h`: for a hoisted definition the
next larger one around the smallest, if there is one, for a global one the whole text,
and otherwise the smallest. -/
def Home (top : Span) (captures : List Capture) (c : Capture) (h : Span) : Prop :=
  match c.role with
  | .definition .hoisted =>
      ∃ s, Span.IsInnermost (scopeSpans top captures) c.span s ∧
        (Span.IsInnermost ((scopeSpans top captures).filter (· ≠ s)) s h ∨
          (∀ u ∈ scopeSpans top captures, u.contains s = true → u = s) ∧ h = top)
  | .definition .globalScope => h = top
  | _ => Span.IsInnermost (scopeSpans top captures) c.span h

theorem Home.mem {top h : Span} {captures : List Capture} {c : Capture}
    (hh : Home top captures c h) : h ∈ scopeSpans top captures := by
  unfold Home at hh
  split at hh
  · obtain ⟨s, -, ho | ⟨-, rfl⟩⟩ := hh
    · exact (List.mem_filter.mp ho.mem).1
    · exact mem_scopeSpans.mpr (Or.inl rfl)
  · exact mem_scopeSpans.mpr (Or.inl hh)
  · exact hh.mem

namespace Regular

variable {top : Span} {captures : List Capture}

theorem mono {cs : List Capture} (h : Regular top captures) (hsub : ∀ c ∈ cs, c ∈ captures) :
    Regular top cs where
  nonempty c hc := h.nonempty c (hsub c hc)
  inside c hc := h.inside c (hsub c hc)
  nested a ha b hb := h.nested a (hsub a ha) b (hsub b hb)
  eq_of_bytes := by
    have hspans : ∀ s ∈ top :: cs.map Capture.span, s ∈ top :: captures.map Capture.span := by
      intro s hs
      rcases List.mem_cons.mp hs with rfl | hs
      · exact List.mem_cons_self ..
      · obtain ⟨c, hc, rfl⟩ := List.mem_map.mp hs
        exact List.mem_cons_of_mem _ (List.mem_map_of_mem (hsub c hc))
    intro s hs t ht
    exact h.eq_of_bytes s (hspans s hs) t (hspans t ht)

theorem span_mem {s : Span} (hs : s ∈ scopeSpans top captures) :
    s ∈ top :: captures.map Capture.span := by
  rcases mem_scopeSpans.mp hs with rfl | ⟨c, hc, -, rfl⟩
  · exact List.mem_cons_self ..
  · exact List.mem_cons_of_mem _ (List.mem_map_of_mem hc)

/-- Scopes that contain each other are one. -/
theorem eq_of_contains (h : Regular top captures) {s t : Span}
    (hs : s ∈ top :: captures.map Capture.span) (ht : t ∈ top :: captures.map Capture.span)
    (hst : s.contains t = true) (hts : t.contains s = true) : s = t := by
  obtain ⟨h1, h2⟩ := Span.bytes_eq_of_contains hst hts
  exact h.eq_of_bytes s hs t ht h1 h2

theorem top_contains (h : Regular top captures) {s : Span} (hs : s ∈ scopeSpans top captures) :
    top.contains s = true := by
  rcases mem_scopeSpans.mp hs with rfl | ⟨c, hc, -, rfl⟩
  · exact Span.contains_refl _
  · exact h.inside c hc

/-- There is only one smallest scope. -/
theorem innermost_unique (h : Regular top captures) {scopes : List Span}
    (hsub : ∀ s ∈ scopes, s ∈ scopeSpans top captures) {t s s' : Span}
    (hs : Span.IsInnermost scopes t s) (hs' : Span.IsInnermost scopes t s') : s = s' :=
  h.eq_of_contains (span_mem (hsub s hs.mem)) (span_mem (hsub s' hs'.mem))
    (hs'.least s hs.mem hs.contains) (hs.least s' hs'.mem hs'.contains)

/-- Where there is a larger scope, it is not the case that there is none. -/
theorem not_outermost {s u : Span}
    (hu : Span.IsInnermost ((scopeSpans top captures).filter (· ≠ s)) s u) :
    ¬ ∀ v ∈ scopeSpans top captures, v.contains s = true → v = s := by
  intro hall
  obtain ⟨hmem, hne⟩ := List.mem_filter.mp hu.mem
  rw [decide_eq_true_eq] at hne
  exact hne (hall u hmem hu.contains)

/-- A capture binds its name in one scope only. -/
theorem home_unique (h : Regular top captures) {c : Capture} {t t' : Span}
    (ht : Home top captures c t) (ht' : Home top captures c t') : t = t' := by
  cases hrole : c.role with
  | definition scoping =>
    cases scoping with
    | localScope =>
      simp only [Home, hrole] at ht ht'
      exact h.innermost_unique (fun _ => id) ht ht'
    | globalScope =>
      simp only [Home, hrole] at ht ht'
      exact ht.trans ht'.symm
    | hoisted =>
      simp only [Home, hrole] at ht ht'
      obtain ⟨s, hs, hcases⟩ := ht
      obtain ⟨s', hs', hcases'⟩ := ht'
      obtain rfl : s = s' := h.innermost_unique (fun _ => id) hs hs'
      rcases hcases with ho | ⟨hall, rfl⟩ <;> rcases hcases' with ho' | ⟨hall', rfl⟩
      · exact h.innermost_unique (fun u hu => (List.mem_filter.mp hu).1) ho ho'
      · exact absurd hall' (not_outermost ho)
      · exact absurd hall (not_outermost ho')
      · rfl
  | scope | imported | reference | ignored =>
    simp only [Home, hrole] at ht ht'
    exact h.innermost_unique (fun _ => id) ht ht'

end Regular

/-! ### Open scopes -/

/-- Between the captures `done` and the captures `rest`, the scopes `opened` are open,
innermost first: each lies in those after it, and a scope that is not open any more
ended before everything that follows. -/
structure OpenScopes (done rest : List Capture) (opened : List Span) : Prop where
  nested : opened.Pairwise fun inner outer => outer.contains inner = true
  started : ∀ s ∈ opened, ∃ c ∈ done, c.role = .scope ∧ c.span = s
  ended : ∀ c ∈ done, c.role = .scope →
    c.span ∈ opened ∨ ∀ d ∈ rest, c.span.stop.byte ≤ d.span.start.byte

theorem ended_append_remaining (byte : Nat) (opened : List Span) :
    ended byte opened ++ remaining byte opened = opened :=
  List.takeWhile_append_dropWhile

/-- Of nested scopes those remain that end later. -/
theorem mem_remaining {byte : Nat} {opened : List Span}
    (h : opened.Pairwise fun inner outer => outer.contains inner = true) {s : Span} :
    s ∈ remaining byte opened ↔ s ∈ opened ∧ byte < s.stop.byte := by
  induction opened with
  | nil => simp [remaining]
  | cons t ts ih =>
    rw [List.pairwise_cons] at h
    rw [remaining, List.dropWhile_cons]
    split
    · next hend =>
      rw [decide_eq_true_eq] at hend
      rw [← remaining, ih h.2, List.mem_cons]
      constructor
      · rintro ⟨hs, hlt⟩
        exact ⟨Or.inr hs, hlt⟩
      · rintro ⟨rfl | hs, hlt⟩
        · omega
        · exact ⟨hs, hlt⟩
    · next hend =>
      rw [decide_eq_true_eq] at hend
      refine ⟨fun hs => ⟨hs, ?_⟩, And.left⟩
      rcases List.mem_cons.mp hs with rfl | hs
      · omega
      · have hle := (Span.contains_iff.mp (h.1 s hs)).2
        omega

namespace OpenScopes

variable {top : Span} {done rest : List Capture} {c : Capture} {opened : List Span}

theorem nil (rest : List Capture) : OpenScopes [] rest [] := ⟨.nil, by simp, by simp⟩

/-- Closing what has ended before the next capture. -/
theorem close (hsorted : (done ++ c :: rest).Pairwise (precedes · · = true))
    (h : OpenScopes done (c :: rest) opened) :
    OpenScopes done (c :: rest) (remaining c.span.start.byte opened) where
  nested := h.nested.sublist (List.dropWhile_sublist _)
  started s hs := h.started s ((mem_remaining h.nested).mp hs).1
  ended := by
    intro d hd hrole
    rcases h.ended d hd hrole with hopen | hend
    · by_cases hlt : c.span.start.byte < d.span.stop.byte
      · exact Or.inl ((mem_remaining h.nested).mpr ⟨hopen, hlt⟩)
      · right
        intro e he
        -- later captures do not start before this one
        have hce : c.span.start.byte ≤ e.span.start.byte := by
          rcases List.mem_cons.mp he with rfl | he
          · exact Nat.le_refl _
          · have hprec := List.rel_of_pairwise_cons (List.pairwise_append.mp hsorted).2.1 he
            rw [precedes_iff] at hprec
            omega
        omega
    · exact Or.inr hend

/-- A scope that has not ended where another one starts contains it. -/
theorem contains_of_lt (hreg : Regular top (done ++ c :: rest))
    (hsorted : (done ++ c :: rest).Pairwise (precedes · · = true)) (hrole : c.role = .scope)
    {d : Capture} (hd : d ∈ done) (hdrole : d.role = .scope)
    (hlt : c.span.start.byte < d.span.stop.byte) : d.span.contains c.span = true := by
  have hc : c ∈ done ++ c :: rest := by simp
  have hd' : d ∈ done ++ c :: rest := by simp [hd]
  have hprec := (List.pairwise_append.mp hsorted).2.2 d hd c (List.mem_cons_self ..)
  have hcn := hreg.nonempty c hc
  rw [precedes_iff] at hprec
  rcases hreg.nested d hd' c hc hdrole hrole with h | h | h | h
  · exact h
  · rw [Span.contains_iff] at h ⊢
    omega
  · omega
  · omega

/-- Taking the next capture, once what has ended is closed. -/
theorem take (hreg : Regular top (done ++ c :: rest))
    (hsorted : (done ++ c :: rest).Pairwise (precedes · · = true))
    (h : OpenScopes done (c :: rest) opened) :
    OpenScopes (done ++ [c]) rest (c.openedBy (remaining c.span.start.byte opened)) := by
  have hclosed := h.close hsorted
  have hended : ∀ d ∈ done, d.role = .scope →
      d.span ∈ remaining c.span.start.byte opened ∨
        ∀ e ∈ rest, d.span.stop.byte ≤ e.span.start.byte := by
    intro d hd hrole
    exact (hclosed.ended d hd hrole).imp_right fun hall e he => hall e (List.mem_cons_of_mem _ he)
  have hstarted : ∀ s ∈ remaining c.span.start.byte opened,
      ∃ d ∈ done ++ [c], d.role = .scope ∧ d.span = s := by
    intro s hs
    obtain ⟨d, hd, hr, hds⟩ := hclosed.started s hs
    exact ⟨d, List.mem_append_left _ hd, hr, hds⟩
  rw [openedBy]
  split
  · -- a scope starts, inside all that are still open
    next hscope =>
    rw [beq_iff_eq] at hscope
    refine ⟨?_, ?_, ?_⟩
    · rw [List.pairwise_cons]
      refine ⟨fun s hs => ?_, hclosed.nested⟩
      obtain ⟨d, hd, hr, rfl⟩ := hclosed.started s hs
      exact contains_of_lt hreg hsorted hscope hd hr ((mem_remaining h.nested).mp hs).2
    · intro s hs
      rcases List.mem_cons.mp hs with rfl | hs
      · exact ⟨c, by simp, hscope, rfl⟩
      · exact hstarted s hs
    · intro d hd hrole
      rcases List.mem_append.mp hd with hd | hd
      · exact (hended d hd hrole).imp_left (List.mem_cons_of_mem _)
      · rw [List.mem_singleton.mp hd]
        exact Or.inl (List.mem_cons_self ..)
  · next hscope =>
    refine ⟨hclosed.nested, hstarted, ?_⟩
    intro d hd hrole
    rcases List.mem_append.mp hd with hd | hd
    · exact hended d hd hrole
    · rw [List.mem_singleton.mp hd] at hrole
      simp [hrole] at hscope

/-- A scope around the next capture that has started is open. -/
theorem mem_of_contains (hreg : Regular top (done ++ c :: rest))
    (h : OpenScopes done (c :: rest) opened) {d : Capture} (hd : d ∈ done)
    (hrole : d.role = .scope) (hcontains : d.span.contains c.span = true) : d.span ∈ opened := by
  rcases h.ended d hd hrole with hopen | hend
  · exact hopen
  · have hle := hend c (List.mem_cons_self ..)
    have hcn := hreg.nonempty c (by simp)
    rw [Span.contains_iff] at hcontains
    omega

/-- A scope that is taken later and contains the next capture is the next capture. -/
theorem eq_of_contains_later (hreg : Regular top (done ++ c :: rest))
    (hsorted : (done ++ c :: rest).Pairwise (precedes · · = true)) {d : Capture}
    (hd : d ∈ c :: rest) (hrole : d.role = .scope) (hcontains : d.span.contains c.span = true) :
    c.role = .scope ∧ d.span = c.span := by
  rcases List.mem_cons.mp hd with rfl | hmem
  · exact ⟨hrole, rfl⟩
  · have hprec := List.rel_of_pairwise_cons (List.pairwise_append.mp hsorted).2.1 hmem
    rw [precedes_iff, hrole] at hprec
    rw [Span.contains_iff] at hcontains
    simp only [Role.rank] at hprec
    refine ⟨?_, ?_⟩
    · cases hr : c.role <;> simp only [hr] at hprec <;> first | rfl | omega
    · refine hreg.eq_of_bytes _ ?_ _ ?_ (by omega) (by omega)
      · exact List.mem_cons_of_mem _ (List.mem_map_of_mem (List.mem_append_right _ hd))
      · exact List.mem_cons_of_mem _ (List.mem_map_of_mem (by simp))

/-- **The innermost open scope that contains the next capture is the smallest scope
that does**, apart from the capture itself if it is a scope. -/
theorem innermost (hreg : Regular top (done ++ c :: rest))
    (hsorted : (done ++ c :: rest).Pairwise (precedes · · = true))
    (h : OpenScopes done (c :: rest) opened) :
    (opened.find? (·.contains c.span)).getD top ∈ scopeSpans top (done ++ c :: rest) ∧
      ((opened.find? (·.contains c.span)).getD top).contains c.span = true ∧
      ∀ u ∈ scopeSpans top (done ++ c :: rest), u.contains c.span = true →
        (c.role = .scope ∧ u = c.span) ∨
          u.contains ((opened.find? (·.contains c.span)).getD top) = true := by
  cases hf : opened.find? (·.contains c.span) with
  | none =>
    rw [Option.getD_none]
    refine ⟨mem_scopeSpans.mpr (Or.inl rfl), hreg.inside c (by simp), ?_⟩
    intro u hu hcontains
    rcases mem_scopeSpans.mp hu with rfl | ⟨d, hd, hrole, rfl⟩
    · exact Or.inr (Span.contains_refl _)
    · rcases List.mem_append.mp hd with hd | hd
      · have hno := List.find?_eq_none.mp hf _ (h.mem_of_contains hreg hd hrole hcontains)
        exact absurd hcontains hno
      · exact Or.inl (eq_of_contains_later hreg hsorted hd hrole hcontains)
  | some s =>
    rw [Option.getD_some]
    obtain ⟨hs, as, bs, rfl, has⟩ := List.find?_eq_some_iff_append.mp hf
    obtain ⟨e, he, herole, rfl⟩ := h.started s (by simp)
    refine ⟨mem_scopeSpans.mpr (Or.inr ⟨e, by simp [he], herole, rfl⟩), hs, ?_⟩
    intro u hu hcontains
    rcases mem_scopeSpans.mp hu with rfl | ⟨d, hd, hrole, rfl⟩
    · exact Or.inr (hreg.inside e (by simp [he]))
    · rcases List.mem_append.mp hd with hd | hd
      · right
        -- it is open, and not before the first one that contains the capture
        rcases List.mem_append.mp (h.mem_of_contains hreg hd hrole hcontains) with hin | hin
        · have hno := has _ hin
          simp [hcontains] at hno
        · rcases List.mem_cons.mp hin with heq | hin
          · rw [heq]
            exact Span.contains_refl _
          · exact List.rel_of_pairwise_cons (List.pairwise_append.mp h.nested).2.1 hin
      · exact Or.inl (eq_of_contains_later hreg hsorted hd hrole hcontains)

/-- A scope that started before is found again where it starts once more. -/
theorem innermost_eq (hreg : Regular top (done ++ c :: rest))
    (hsorted : (done ++ c :: rest).Pairwise (precedes · · = true))
    (h : OpenScopes done (c :: rest) opened) (hmem : c.span ∈ scopeSpans top done) :
    (opened.find? (·.contains c.span)).getD top = c.span := by
  obtain ⟨hs, hcontains, -⟩ := h.innermost hreg hsorted
  have hcm : c.span ∈ top :: (done ++ c :: rest).map Capture.span :=
    List.mem_cons_of_mem _ (List.mem_map_of_mem (by simp))
  refine hreg.eq_of_contains (Regular.span_mem hs) hcm hcontains ?_
  rcases mem_scopeSpans.mp hmem with htop | ⟨d, hd, hrole, hspan⟩
  · have hall := hreg.top_contains hs
    exact Span.contains_trans (by rw [htop]; exact Span.contains_refl _) hall
  · -- it is open, and not before the first one that contains the capture
    have hopen := h.mem_of_contains hreg hd hrole (by rw [hspan]; exact Span.contains_refl _)
    rw [hspan] at hopen
    cases hf : opened.find? (·.contains c.span) with
    | none => exact absurd (Span.contains_refl _) (List.find?_eq_none.mp hf _ hopen)
    | some s =>
      obtain ⟨-, as, bs, rfl, has⟩ := List.find?_eq_some_iff_append.mp hf
      rcases List.mem_append.mp hopen with hin | hin
      · have hno := has _ hin
        simp [Span.contains_refl] at hno
      · rcases List.mem_cons.mp hin with heq | hin
        · rw [heq]
          exact Span.contains_refl _
        · exact List.rel_of_pairwise_cons (List.pairwise_append.mp h.nested).2.1 hin

end OpenScopes
end Capture
end NameBinding
