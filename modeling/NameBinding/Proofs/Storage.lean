import NameBinding.Files.Basic

/-!
# What is written to a file is read from it

A write changes what is stored at one place.  The path of the write still leads to that
place afterwards: the directories on the way are still there, since the place itself was
none of them.

## Main results

* `Files.write_eq_ok_iff` — **when a file can be written**, and what is stored then.
* `Files.follow_store` — the way to the place of a new file.
* `Files.readText_write` — **a text that was written is read back.**
* `Files.content?_write` — **no other file changes.**
-/

namespace NameBinding
namespace Files

variable {f f' : Files} {place q : List String} {e : Entry}

/-! ### Places -/

theorem entry?_store_self (f : Files) (place : List String) (e : Entry) :
    Files.entry? (f.store place e) place = some e := by
  simp [store, entry?]

theorem entry?_store_of_ne (h : q ≠ place) : Files.entry? (f.store place e) q = f.entry? q := by
  have hfilter : (f.entries.filter (·.1 != place)).find? (·.1 == q) =
      f.entries.find? (·.1 == q) := by
    rw [List.find?_filter]
    congr 1
    funext x
    by_cases hx : x.1 = q
    · simp [hx, h]
    · simp [hx]
  simp only [store, entry?, List.find?_cons, hfilter]
  rw [beq_eq_false_iff_ne.2 (Ne.symm h)]

theorem content?_store_self (f : Files) (place : List String) (content : ByteArray) :
    (f.store place (.file content)).content? place = some content := by
  rw [content?, entry?_store_self]

theorem content?_store_of_ne (h : q ≠ place) : (f.store place e).content? q = f.content? q := by
  rw [content?, content?, entry?_store_of_ne h]

/-- A directory stays one: what lies below it is kept, or is the place itself. -/
theorem isDirectory_store (hq : f.isDirectory q = true) (h : q ≠ place) :
    (f.store place e).isDirectory q = true := by
  rw [isDirectory, Bool.and_eq_true] at hq ⊢
  obtain ⟨hfile, hbelow⟩ := hq
  refine ⟨by rw [isFile, content?_store_of_ne h]; exact hfile, ?_⟩
  rw [Bool.or_eq_true, List.any_eq_true] at hbelow ⊢
  rcases hbelow with hroot | ⟨x, hx, hprefix⟩
  · exact Or.inl hroot
  · by_cases hxp : x.1 = place
    · exact Or.inr ⟨(place, e), List.mem_cons_self, hxp ▸ hprefix⟩
    · exact Or.inr ⟨x, List.mem_cons_of_mem _ (List.mem_filter.2 ⟨hx, by simpa using hxp⟩), hprefix⟩

/-- The way to a place is still there when something is stored where no directory was. -/
theorem follow_store (hplace : f.isDirectory place = false) {cs : List Path.Component}
    {here : List String} (h : f.follow here cs = .ok q) :
    (f.store place e).follow here cs = .ok q := by
  induction cs generalizing here with
  | nil => exact h
  | cons c cs ih =>
    rw [follow.eq_def] at h ⊢
    dsimp only at h ⊢
    split at h
    · next hhere =>
      have hne : here.reverse ≠ place := fun heq => by rw [heq, hplace] at hhere; cases hhere
      rw [if_pos (isDirectory_store hhere hne)]
      cases c with
      | root => exact h
      | current => exact ih h
      | parent =>
        cases here with
        | nil => exact h
        | cons name above => exact ih h
      | named name => exact ih h
    · split at h <;> cases h

/-! ### Writing -/

variable {path text : String}

/-- **A file can be written** at a plain path into a directory that is there. -/
theorem write_eq_ok_iff : f.write path text = .ok f' ↔ ∃ place, f.placeOf path = .ok place ∧
    f.isDirectory place = false ∧ Path.ending path = .plain ∧
    f.isDirectory place.dropLast = true ∧ f' = f.store place (.file text.toUTF8) := by
  rw [write]
  cases hplace : f.placeOf path with
  | error problem =>
    constructor
    · intro h
      cases h
    · rintro ⟨place, h, -⟩
      cases h
  | ok place =>
    constructor
    · intro h
      simp only [bind, Except.bind] at h
      split at h
      · cases h
      next hdirectory =>
      split at h
      · cases h
      next hdot =>
      split at h
      · cases h
      split at h
      · cases h
      next habove =>
      simp only [Bool.or_eq_true, decide_eq_true_eq, not_or, Bool.not_eq_true] at hdirectory
      refine ⟨place, rfl, hdirectory.1, ?_, by simpa using habove, (Except.ok.inj h).symm⟩
      cases hending : Path.ending path with
      | plain => rfl
      | slash => exact absurd hending hdirectory.2
      | dot => exact absurd hending hdot
    · rintro ⟨place', heq, hdirectory, hending, habove, rfl⟩
      obtain rfl := Except.ok.inj heq
      have hfile : f.isFile place.dropLast = false := by
        rw [isDirectory, Bool.and_eq_true] at habove
        simpa using habove.1
      simp only [bind, Except.bind, hdirectory, hending, hfile, habove]
      rfl

theorem placeOf_store (hplace : f.isDirectory place = false) (h : f.placeOf path = .ok q) :
    (f.store place e).placeOf path = .ok q := by
  rw [placeOf] at h ⊢
  split at h
  · cases h
  · next hpath => rw [if_neg hpath, follow_store hplace h]

/-- The path of a write leads to the file that was written. -/
theorem resolve_write (h : f.write path text = .ok f') :
    ∃ place, f'.resolve path = .ok place ∧ f'.content? place = some text.toUTF8 := by
  obtain ⟨place, hplace, hdirectory, hending, -, rfl⟩ := write_eq_ok_iff.1 h
  refine ⟨place, ?_, content?_store_self f place _⟩
  rw [resolve, placeOf_store hdirectory hplace]
  simp [hending]

theorem exists?_write (h : f.write path text = .ok f') : f'.exists? path = true := by
  obtain ⟨place, hresolve, hcontent⟩ := resolve_write h
  simp [exists?, hresolve, isFile, hcontent]

theorem fromUTF8?_toUTF8 (text : String) : String.fromUTF8? text.toUTF8 = some text := by
  simp only [String.fromUTF8?, String.toUTF8_eq_toByteArray, dif_pos text.isValidUTF8]
  rfl

/-- **A text that was written is read back.** -/
theorem readText_write (h : f.write path text = .ok f') : f'.readText path = .ok text := by
  obtain ⟨place, hresolve, hcontent⟩ := resolve_write h
  have hbytes : f'.readBytes path = .ok text.toUTF8 := by
    simp only [readBytes, hresolve, bind, Except.bind, hcontent]
    rfl
  simp only [readText, hbytes, bind, Except.bind, fromUTF8?_toUTF8]
  rfl

/-- **No other file changes.** -/
theorem content?_write (h : f.write path text = .ok f') (hq : f.placeOf path ≠ .ok q) :
    f'.content? q = f.content? q := by
  obtain ⟨place, hplace, -, -, -, rfl⟩ := write_eq_ok_iff.1 h
  exact content?_store_of_ne fun heq => hq (heq ▸ hplace)

end Files
end NameBinding
