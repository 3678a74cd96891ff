import Mathlib.Algebra.BigOperators.Group.List.Basic
import Mathlib.Data.List.Nodup
import NameBinding.Report

/-!
# Reports add up

A report takes in one message after the other, each time checking that no member of a
total grows beyond a size.  What it holds in the end can be said without an order: it
has the number of analysed files, for each language the sum of what its files
contribute, and the failures.  A sum of sizes that is a size has only sizes on the way,
so whether a report comes about does not depend on the order either.

## Main definitions

* `LanguageTotals.Fits` — every member is a size.
* `FileResult.share` — what a message contributes to the totals of a language.
* `Report.Summarizes` — the report holds what the messages say, in whatever order.

## Main results

* `LanguageTotals.absorb_eq_ok_iff` — a file is taken in exactly if the sums are sizes.
* `Report.Summarizes.absorb`, `Report.Summarizes.exists_absorb` — one more message.
* `Report.Summarizes.inOrder_unique` — **messages with different paths have one report,
  up to the order of the failures, whatever their order is.**
* `Report.ofMessages_eq_ok` — and it is the one that is printed.
-/

namespace NameBinding

/-! ### Running totals -/

section Running

variable {σ : Type} {s t : σ}

/-- The update of a running total succeeds, and leads from `s` to `t`. -/
def EndsIn (update : ExceptT Fault (StateM σ) Unit) (s t : σ) : Prop :=
  (update.run s).1 = .ok () ∧ (update.run s).2 = t

/-- A member is added to only if the sum is a size. -/
theorem endsIn_add (member : σ → Nat) (n : Nat) (next : Nat → ExceptT Fault (StateM σ) Unit) :
    EndsIn (do
      let x ← (Size.add (member (← get)) n : Except Fault Nat)
      next x) s t ↔ member s + n < Size.bound ∧ EndsIn (next (member s + n)) s t := by
  show EndsIn (liftM (Size.add (member s) n) >>= next) s t ↔ _
  by_cases h : member s + n < Size.bound
  · have hadd : Size.add (member s) n = .ok (member s + n) := if_pos h
    rw [hadd]
    exact (and_iff_right h).symm
  · have hadd : Size.add (member s) n = .error .sumTooLarge := if_neg h
    rw [hadd]
    refine iff_of_false ?_ fun hlt => h hlt.1
    rintro ⟨hok, -⟩
    cases hok

theorem endsIn_modify_bind (f : σ → σ) (rest : ExceptT Fault (StateM σ) Unit) :
    EndsIn (do modify f; rest) s t ↔ EndsIn rest (f s) t := Iff.rfl

theorem endsIn_modify (f : σ → σ) : EndsIn (modify f) s t ↔ f s = t := and_iff_right rfl

end Running

theorem Size.add_eq_ok_iff {a b c : Nat} :
    Size.add a b = .ok c ↔ a + b < Size.bound ∧ a + b = c := by
  by_cases h : a + b < Size.bound
  · simp [Size.add, h]
  · simp [Size.add, h]

/-! ### Sums of counts -/

namespace GraphCounts

instance : Add GraphCounts where
  add a b := ⟨a.scopes + b.scopes, a.definitions + b.definitions, a.imports + b.imports,
    a.references + b.references, a.resolved + b.resolved, a.edges + b.edges⟩

theorem add_def (a b : GraphCounts) : a + b =
    ⟨a.scopes + b.scopes, a.definitions + b.definitions, a.imports + b.imports,
      a.references + b.references, a.resolved + b.resolved, a.edges + b.edges⟩ := rfl

instance : Zero GraphCounts := ⟨{}⟩

instance : AddCommMonoid GraphCounts where
  add_assoc a b c := by simp only [add_def, Nat.add_assoc]
  zero_add a := by
    show (⟨0 + a.scopes, 0 + a.definitions, 0 + a.imports, 0 + a.references, 0 + a.resolved,
      0 + a.edges⟩ : GraphCounts) = a
    simp only [Nat.zero_add]
  add_zero a := rfl
  add_comm a b := by simp only [add_def, Nat.add_comm]
  nsmul := nsmulRec

/-- Every member is a size. -/
def Fits (s : GraphCounts) : Prop :=
  s.scopes < Size.bound ∧ s.definitions < Size.bound ∧ s.imports < Size.bound ∧
    s.references < Size.bound ∧ s.resolved < Size.bound ∧ s.edges < Size.bound

theorem Fits.of_add {a b : GraphCounts} (h : (a + b).Fits) : a.Fits := by
  simp only [Fits, add_def] at h ⊢
  omega

theorem sum_eq_ok_iff {a b c : GraphCounts} : a.sum b = .ok c ↔ (a + b).Fits ∧ a + b = c := by
  have hrun : a.sum b = .ok c ↔ EndsIn b.absorb a c := by
    unfold sum EndsIn
    obtain ⟨result, total⟩ : Except Fault Unit × GraphCounts := b.absorb.run a
    cases result <;> simp
  rw [hrun]
  simp only [absorb, endsIn_add, endsIn_modify_bind, endsIn_modify, Fits, add_def, and_assoc]

end GraphCounts

namespace BindingCounts

instance : Add BindingCounts where
  add a b := ⟨a.references + b.references, a.toDefinitions + b.toDefinitions,
    a.toImports + b.toImports, a.unresolved + b.unresolved⟩

theorem add_def (a b : BindingCounts) : a + b =
    ⟨a.references + b.references, a.toDefinitions + b.toDefinitions,
      a.toImports + b.toImports, a.unresolved + b.unresolved⟩ := rfl

instance : Zero BindingCounts := ⟨{}⟩

instance : AddCommMonoid BindingCounts where
  add_assoc a b c := by simp only [add_def, Nat.add_assoc]
  zero_add a := by
    show (⟨0 + a.references, 0 + a.toDefinitions, 0 + a.toImports, 0 + a.unresolved⟩ :
      BindingCounts) = a
    simp only [Nat.zero_add]
  add_zero a := rfl
  add_comm a b := by simp only [add_def, Nat.add_comm]
  nsmul := nsmulRec

/-- Every member is a size. -/
def Fits (s : BindingCounts) : Prop :=
  s.references < Size.bound ∧ s.toDefinitions < Size.bound ∧ s.toImports < Size.bound ∧
    s.unresolved < Size.bound

theorem Fits.of_add {a b : BindingCounts} (h : (a + b).Fits) : a.Fits := by
  simp only [Fits, add_def] at h ⊢
  omega

theorem sum_eq_ok_iff {a b c : BindingCounts} : a.sum b = .ok c ↔ (a + b).Fits ∧ a + b = c := by
  have hrun : a.sum b = .ok c ↔ EndsIn b.absorb a c := by
    unfold sum EndsIn
    obtain ⟨result, total⟩ : Except Fault Unit × BindingCounts := b.absorb.run a
    cases result <;> simp
  rw [hrun]
  simp only [absorb, endsIn_add, endsIn_modify_bind, endsIn_modify, Fits, add_def, and_assoc]

end BindingCounts

namespace LanguageTotals

instance : Add LanguageTotals where
  add a b := ⟨a.files + b.files, a.graph + b.graph, a.resolution + b.resolution⟩

theorem add_def (a b : LanguageTotals) :
    a + b = ⟨a.files + b.files, a.graph + b.graph, a.resolution + b.resolution⟩ := rfl

instance : Zero LanguageTotals := ⟨{}⟩

instance : AddCommMonoid LanguageTotals where
  add_assoc a b c := by simp only [add_def, add_assoc]
  zero_add a := by
    show (⟨0 + a.files, 0 + a.graph, 0 + a.resolution⟩ : LanguageTotals) = a
    simp only [zero_add]
  add_zero a := rfl
  add_comm a b := by simp only [add_def, add_comm]
  nsmul := nsmulRec

/-- Every member is a size. -/
def Fits (s : LanguageTotals) : Prop := s.files < Size.bound ∧ s.graph.Fits ∧ s.resolution.Fits

theorem Fits.of_add {a b : LanguageTotals} (h : (a + b).Fits) : a.Fits := by
  obtain ⟨hfiles, hgraph, hresolution⟩ := h
  refine ⟨?_, hgraph.of_add, hresolution.of_add⟩
  rw [add_def] at hfiles
  simp only at hfiles
  omega

/-- The totals of one file. -/
def ofFile (graph : GraphCounts) (resolution : BindingCounts) : LanguageTotals :=
  ⟨1, graph, resolution⟩

/-- **A file is taken in exactly if all the sums are sizes.** -/
theorem absorb_eq_ok_iff {s t : LanguageTotals} {graph : GraphCounts}
    {resolution : BindingCounts} : s.absorb graph resolution = .ok t ↔
      (s + ofFile graph resolution).Fits ∧ s + ofFile graph resolution = t := by
  constructor
  · intro h
    unfold absorb at h
    cases hfiles : Size.add s.files 1 with
    | error f => rw [hfiles] at h; cases h
    | ok files =>
      cases hgraph : s.graph.sum graph with
      | error f => rw [hfiles, hgraph] at h; cases h
      | ok g =>
        cases hresolution : s.resolution.sum resolution with
        | error f => rw [hfiles, hgraph, hresolution] at h; cases h
        | ok c =>
          rw [hfiles, hgraph, hresolution] at h
          cases h
          obtain ⟨hf, rfl⟩ := Size.add_eq_ok_iff.mp hfiles
          obtain ⟨hg, rfl⟩ := GraphCounts.sum_eq_ok_iff.mp hgraph
          obtain ⟨hc, rfl⟩ := BindingCounts.sum_eq_ok_iff.mp hresolution
          exact ⟨⟨hf, hg, hc⟩, rfl⟩
  · rintro ⟨⟨hf, hg, hc⟩, rfl⟩
    have hfiles : Size.add s.files 1 = .ok (s.files + 1) := Size.add_eq_ok_iff.mpr ⟨hf, rfl⟩
    have hgraph : s.graph.sum graph = .ok (s.graph + graph) :=
      GraphCounts.sum_eq_ok_iff.mpr ⟨hg, rfl⟩
    have hresolution : s.resolution.sum resolution = .ok (s.resolution + resolution) :=
      BindingCounts.sum_eq_ok_iff.mpr ⟨hc, rfl⟩
    unfold absorb
    rw [hfiles, hgraph, hresolution]
    rfl

end LanguageTotals

/-! ### What messages say -/

namespace FileResult

/-- The path of the file a message is about. -/
def path : FileResult → String
  | .analyzed path .. => path
  | .failed path _ => path

/-- The language of an analysed file. -/
def language? : FileResult → Option String
  | .analyzed _ language _ _ => some language
  | .failed .. => none

/-- The failure a message reports. -/
def failure? : FileResult → Option FailedFile
  | .analyzed .. => none
  | .failed path failure => some ⟨path, failure⟩

/-- What a message contributes to the totals of a language. -/
def share (language : String) : FileResult → LanguageTotals
  | .analyzed _ l graph resolution => if l = language then .ofFile graph resolution else 0
  | .failed .. => 0

/-- The sum of what messages contribute to a language. -/
def shares (language : String) (ms : List FileResult) : LanguageTotals :=
  (ms.map (share language)).sum

theorem shares_cons (language : String) (m : FileResult) (ms : List FileResult) :
    shares language (m :: ms) = m.share language + shares language ms := by
  rw [shares, List.map_cons, List.sum_cons, ← shares]

theorem shares_append (language : String) (ms ns : List FileResult) :
    shares language (ms ++ ns) = shares language ms + shares language ns := by
  rw [shares, List.map_append, List.sum_append, ← shares, ← shares]

theorem shares_perm (language : String) {ms ns : List FileResult} (h : ms.Perm ns) :
    shares language ms = shares language ns := (h.map _).sum_eq

/-- Nothing is contributed to a language that no file has. -/
theorem shares_eq_zero {language : String} : ∀ {ms : List FileResult},
    language ∉ ms.filterMap language? → shares language ms = 0 := by
  intro ms
  induction ms with
  | nil => intro _; rfl
  | cons m ms ih =>
    intro h
    rw [shares_cons]
    cases m with
    | analyzed path l graph resolution =>
      simp only [List.filterMap_cons, language?, List.mem_cons, not_or] at h
      rw [share, if_neg (Ne.symm h.1), ih h.2, add_zero]
    | failed path failure => exact (zero_add _).trans (ih h)

/-- Every message is about an analysed file or a failure. -/
theorem length_filterMap : ∀ ms : List FileResult,
    (ms.filterMap language?).length + (ms.filterMap failure?).length = ms.length := by
  intro ms
  induction ms with
  | nil => rfl
  | cons m ms ih =>
    cases m with
    | analyzed path l graph resolution =>
      simp only [List.filterMap_cons, language?, failure?, List.length_cons]
      omega
    | failed path failure =>
      simp only [List.filterMap_cons, language?, failure?, List.length_cons]
      omega

/-- The paths of failures are among those of the messages, in order. -/
theorem map_path_sublist : ∀ ms : List FileResult,
    ((ms.filterMap failure?).map FailedFile.path).Sublist (ms.map path) := by
  intro ms
  induction ms with
  | nil => exact .slnil
  | cons m ms ih =>
    cases m with
    | analyzed path l graph resolution => exact ih.cons path
    | failed path failure => exact ih.cons_cons path

end FileResult

open FileResult

/-! ### Reports of messages -/

namespace Report

/-- The report holds what the messages say, in whatever order, and all of it is sizes. -/
structure Summarizes (r : Report) (ms : List FileResult) : Prop where
  files : r.files = (ms.filterMap language?).length
  languages : ∀ l, r.languages.get? l =
    if l ∈ ms.filterMap language? then some (shares l ms) else none
  failures : r.failures.Perm (ms.filterMap failure?)
  files_lt : r.files < Size.bound
  fits : ∀ l, (shares l ms).Fits

theorem absorb_analyzed_eq_ok_iff {r r' : Report} {path language : String} {graph : GraphCounts}
    {resolution : BindingCounts} :
    r.absorb (.analyzed path language graph resolution) = .ok r' ↔
      ∃ t, t = (r.languages.get? language).getD {} + .ofFile graph resolution ∧ t.Fits ∧
        r.files + 1 < Size.bound ∧
        r' = { r with languages := r.languages.insert language t, files := r.files + 1 } := by
  constructor
  · intro h
    unfold absorb at h
    cases ht : ((r.languages.get? language).getD {}).absorb graph resolution with
    | error f => simp only [ht] at h; cases h
    | ok t =>
      cases hf : Size.add r.files 1 with
      | error f => simp only [ht, hf] at h; cases h
      | ok files =>
        simp only [ht, hf] at h
        cases h
        obtain ⟨hfits, rfl⟩ := LanguageTotals.absorb_eq_ok_iff.mp ht
        obtain ⟨hlt, rfl⟩ := Size.add_eq_ok_iff.mp hf
        exact ⟨_, rfl, hfits, hlt, rfl⟩
  · rintro ⟨t, ht, hfits, hlt, rfl⟩
    have habsorb : ((r.languages.get? language).getD {}).absorb graph resolution = .ok t :=
      LanguageTotals.absorb_eq_ok_iff.mpr ⟨ht ▸ hfits, ht.symm⟩
    simp only [absorb, habsorb, Size.add_eq_ok_iff.mpr ⟨hlt, rfl⟩]
    rfl

namespace Summarizes

variable {r r' : Report} {ms ns : List FileResult} {m : FileResult}

/-- The order of the messages does not matter. -/
theorem perm (h : r.Summarizes ms) (hperm : ms.Perm ns) : r.Summarizes ns where
  files := by rw [h.files, (hperm.filterMap _).length_eq]
  languages l := by
    rw [h.languages, shares_perm l hperm]
    simp only [(hperm.filterMap language?).mem_iff]
  failures := h.failures.trans (hperm.filterMap _)
  files_lt := h.files_lt
  fits l := by
    rw [← shares_perm l hperm]
    exact h.fits l

theorem empty : ({} : Report).Summarizes [] where
  files := rfl
  languages _ := rfl
  failures := .refl _
  files_lt := by decide
  fits _ := by
    show (0 : Nat) < Size.bound ∧ (0 < Size.bound ∧ 0 < Size.bound ∧ 0 < Size.bound ∧
      0 < Size.bound ∧ 0 < Size.bound ∧ 0 < Size.bound) ∧
      0 < Size.bound ∧ 0 < Size.bound ∧ 0 < Size.bound ∧ 0 < Size.bound
    decide

/-- What is found for a language is the sum of its shares. -/
theorem getD_languages (h : r.Summarizes ms) (l : String) :
    (r.languages.get? l).getD {} = shares l ms := by
  rw [h.languages]
  split
  · rfl
  · next hno => exact (shares_eq_zero hno).symm

/-- **One more message is taken in as the sums say.** -/
theorem absorb (h : r.Summarizes ms) (hr : r.absorb m = .ok r') : r'.Summarizes (m :: ms) := by
  cases m with
  | failed path failure =>
    cases hr
    have hshares : ∀ l, shares l (.failed path failure :: ms) = shares l ms :=
      fun l => (shares_cons ..).trans (zero_add _)
    refine ⟨h.files, fun l => ?_, ?_, h.files_lt, fun l => ?_⟩
    · rw [hshares]
      exact h.languages l
    · exact (List.perm_append_singleton ..).trans (h.failures.cons _)
    · rw [hshares]
      exact h.fits l
  | analyzed path language graph resolution =>
    obtain ⟨t, ht, hfits, hlt, rfl⟩ := absorb_analyzed_eq_ok_iff.mp hr
    rw [h.getD_languages, add_comm] at ht
    -- only the totals of the one language grow
    have hsame : shares language (.analyzed path language graph resolution :: ms) = t := by
      rw [shares_cons, share, if_pos rfl, ht]
    have hother : ∀ l, l ≠ language →
        shares l (.analyzed path language graph resolution :: ms) = shares l ms := by
      intro l hl
      rw [shares_cons, share, if_neg (Ne.symm hl), zero_add]
    refine ⟨?_, fun l => ?_, h.failures, hlt, fun l => ?_⟩
    · simp only [List.filterMap_cons, language?, List.length_cons, h.files]
    · simp only [SortedMap.get?_insert, List.filterMap_cons, language?, List.mem_cons]
      by_cases hl : l = language
      · rw [if_pos hl, hl, if_pos (Or.inl rfl), hsame]
      · rw [if_neg hl, h.languages l, hother l hl]
        simp only [hl, false_or]
    · by_cases hl : l = language
      · rw [hl, hsame]
        exact hfits
      · rw [hother l hl]
        exact h.fits l

/-- **One more message can be taken in if it belongs to some that have a report**: what is
left to come only makes the sums greater. -/
theorem exists_absorb {total : Report} {others : List FileResult} (h : r.Summarizes ms)
    (htotal : total.Summarizes (others ++ m :: ms)) : ∃ r', r.absorb m = .ok r' := by
  cases m with
  | failed path failure => exact ⟨_, rfl⟩
  | analyzed path language graph resolution =>
    have ht : ((r.languages.get? language).getD {} + .ofFile graph resolution).Fits := by
      have hfits := htotal.fits language
      rw [shares_append, add_comm, shares_cons] at hfits
      have hshare := hfits.of_add
      rwa [share, if_pos rfl, add_comm, ← h.getD_languages] at hshare
    have hfiles : r.files + 1 < Size.bound := by
      have hlt := htotal.files ▸ htotal.files_lt
      simp only [List.filterMap_append, List.filterMap_cons, language?, List.length_append,
        List.length_cons, ← h.files] at hlt
      omega
    exact ⟨_, absorb_analyzed_eq_ok_iff.mpr ⟨_, rfl, ht, hfiles, rfl⟩⟩

/-- Every message is counted once. -/
theorem files_add_failures (h : r.Summarizes ms) : r.files + r.failures.length = ms.length := by
  rw [h.files, h.failures.length_eq, length_filterMap]

end Summarizes

/-! ### The order of the failures -/

/-- Sorted failures of different files are determined by what they are. -/
theorem mergeSort_failures {fs gs : List FailedFile} (hperm : fs.Perm gs)
    (hnodup : (fs.map FailedFile.path).Nodup) :
    (fs.mergeSort fun a b => !decide (b.path < a.path)) =
      gs.mergeSort fun a b => !decide (b.path < a.path) := by
  have hle : ∀ a b : FailedFile, (!decide (b.path < a.path)) = true ↔ a.path ≤ b.path := by
    intro a b
    rw [Bool.not_eq_true', decide_eq_false_iff_not, String.not_lt]
  have hsorted : ∀ hs : List FailedFile,
      (hs.mergeSort fun a b => !decide (b.path < a.path)).Pairwise fun a b =>
        (!decide (b.path < a.path)) = true := by
    intro hs
    refine List.pairwise_mergeSort ?_ ?_ hs
    · intro a b c hab hbc
      rw [hle] at *
      exact String.le_trans hab hbc
    · intro a b
      rw [Bool.or_eq_true, hle, hle]
      exact String.le_total ..
  refine List.Perm.eq_of_pairwise ?_ (hsorted fs) (hsorted gs)
    ((List.mergeSort_perm fs _).trans (hperm.trans (List.mergeSort_perm gs _).symm))
  -- two failures with one path are the same failure
  intro a b ha hb hab hba
  rw [List.mem_mergeSort] at ha hb
  rw [hle] at hab hba
  exact List.inj_on_of_nodup_map hnodup ha (hperm.mem_iff.mpr hb) (String.le_antisymm hab hba)

/-- **Messages with different paths have one report, up to the order of the failures.** -/
theorem Summarizes.inOrder_unique {r r' : Report} {ms : List FileResult} (h : r.Summarizes ms)
    (h' : r'.Summarizes ms) (hpaths : (ms.map path).Nodup) : r.inOrder = r'.inOrder := by
  have hfiles : r.files = r'.files := by rw [h.files, h'.files]
  have hlanguages : r.languages = r'.languages :=
    SortedMap.ext_get? fun l => by rw [h.languages, h'.languages]
  have hnodup : (r.failures.map FailedFile.path).Nodup :=
    (h.failures.map _).nodup_iff.mpr (hpaths.sublist (map_path_sublist ms))
  have hfailures := mergeSort_failures (h.failures.trans h'.failures.symm) hnodup
  rw [inOrder, inOrder, hfiles, hlanguages, hfailures]

/-- What was taken in one after the other is what the report holds. -/
theorem Summarizes.of_foldlM : ∀ {ms ns : List FileResult} {r r' : Report},
    r.Summarizes ns → ms.foldlM Report.absorb r = .ok r' → r'.Summarizes (ms ++ ns) := by
  intro ms
  induction ms with
  | nil => intro ns r r' h hr; cases hr; exact h
  | cons m ms ih =>
    intro ns r r' h hr
    rw [List.foldlM_cons] at hr
    cases hd : r.absorb m with
    | error f => rw [hd] at hr; cases hr
    | ok d =>
      rw [hd] at hr
      exact (ih (h.absorb hd) hr).perm List.perm_middle

/-- The messages of a report can be taken in one after the other. -/
theorem Summarizes.exists_foldlM {total : Report} : ∀ {ms ns : List FileResult} {r : Report},
    r.Summarizes ns → total.Summarizes (ms ++ ns) →
    ∃ r', ms.foldlM Report.absorb r = .ok r' := by
  intro ms
  induction ms with
  | nil => intro ns r _ _; exact ⟨r, rfl⟩
  | cons m ms ih =>
    intro ns r h htotal
    have htotal := htotal.perm List.perm_middle.symm
    obtain ⟨d, hd⟩ := h.exists_absorb htotal
    obtain ⟨r', hr'⟩ := ih (h.absorb hd) htotal
    refine ⟨r', ?_⟩
    rw [List.foldlM_cons, hd]
    exact hr'

/-- **The report of messages with different paths is the one that summarizes them.** -/
theorem ofMessages_eq_ok {r : Report} {ms : List FileResult} (h : r.Summarizes ms)
    (hpaths : (ms.map path).Nodup) : ofMessages ms = .ok r.inOrder := by
  rw [← List.append_nil ms] at h
  obtain ⟨r', hr'⟩ := Summarizes.empty.exists_foldlM h
  have hsum := Summarizes.empty.of_foldlM hr'
  rw [List.append_nil] at h hsum
  rw [ofMessages, hr', h.inOrder_unique hsum hpaths]
  rfl

/-- A report that is printed summarizes its messages. -/
theorem summarizes_of_ofMessages {r : Report} {ms : List FileResult}
    (h : ofMessages ms = .ok r) : ∃ total : Report, total.Summarizes ms := by
  cases hfold : ms.foldlM Report.absorb {} with
  | error f => rw [ofMessages, hfold] at h; cases h
  | ok total => exact ⟨total, by simpa using Summarizes.empty.of_foldlM hfold⟩

end Report
end NameBinding
