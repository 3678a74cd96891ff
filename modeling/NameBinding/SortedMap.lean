/-!
# Maps with sorted keys

A finite map from texts, kept as the list of its entries in increasing order of the
keys, so that two maps with the same entries are equal.

* `SortedMap.get?`, `SortedMap.insert`, `SortedMap.ofList`.
* `SortedMap.get?_insert`, `SortedMap.ext_get?` — a map is what is found in it.
* `SortedMap.ofList_entries` — a map is made of its entries.
-/

namespace NameBinding

/-- A map whose entries stand in increasing order of their keys. -/
structure SortedMap (α : Type) where
  entries : List (String × α)
  sorted : entries.Pairwise fun a b => a.1 < b.1

namespace SortedMap

variable {α : Type}

/-- The map without entries. -/
def empty : SortedMap α := ⟨[], .nil⟩

instance : Inhabited (SortedMap α) := ⟨empty⟩

instance [DecidableEq α] : DecidableEq (SortedMap α) := fun a b =>
  decidable_of_iff (a.entries = b.entries) <| by
    cases a; cases b; simp

/-- The value at a key. -/
def get? (m : SortedMap α) (key : String) : Option α :=
  (m.entries.find? (·.1 == key)).map Prod.snd

/-- The entries with the one at `key` set to `value`. -/
def insertEntry (key : String) (value : α) : List (String × α) → List (String × α)
  | [] => [(key, value)]
  | e :: es =>
      if key < e.1 then (key, value) :: e :: es
      else if key = e.1 then (key, value) :: es
      else e :: insertEntry key value es

theorem mem_insertEntry {key : String} {value : α} {es : List (String × α)} {x : String × α}
    (h : x ∈ insertEntry key value es) : x = (key, value) ∨ x ∈ es := by
  induction es with
  | nil => simpa [insertEntry] using h
  | cons e es ih =>
    simp only [insertEntry] at h
    split at h
    · simpa using h
    · split at h
      · rcases List.mem_cons.mp h with rfl | h
        · exact .inl rfl
        · exact .inr (List.mem_cons_of_mem _ h)
      · rcases List.mem_cons.mp h with rfl | h
        · exact .inr List.mem_cons_self
        · exact (ih h).imp_right (List.mem_cons_of_mem _)

theorem pairwise_insertEntry (key : String) (value : α) {es : List (String × α)}
    (h : es.Pairwise fun a b => a.1 < b.1) :
    (insertEntry key value es).Pairwise fun a b => a.1 < b.1 := by
  induction es with
  | nil => simp [insertEntry]
  | cons e es ih =>
    obtain ⟨he, hes⟩ := List.pairwise_cons.mp h
    simp only [insertEntry]
    split
    · rename_i hlt
      refine List.pairwise_cons.mpr ⟨fun x hx => ?_, h⟩
      rcases List.mem_cons.mp hx with rfl | hx
      · exact hlt
      · exact String.lt_trans hlt (he x hx)
    · rename_i hnlt
      split
      · rename_i heq
        subst heq
        exact List.pairwise_cons.mpr ⟨he, hes⟩
      · rename_i hne
        refine List.pairwise_cons.mpr ⟨fun x hx => ?_, ih hes⟩
        rcases mem_insertEntry hx with rfl | hx
        · exact Std.lt_of_le_of_ne (Std.not_lt.mp hnlt) (Ne.symm hne)
        · exact he x hx

/-- The map with the entry at `key` set to `value`. -/
def insert (m : SortedMap α) (key : String) (value : α) : SortedMap α :=
  ⟨insertEntry key value m.entries, pairwise_insertEntry key value m.sorted⟩

/-- The map of some entries; of two with one key the later counts. -/
def ofList (es : List (String × α)) : SortedMap α :=
  es.foldl (fun m e => m.insert e.1 e.2) empty

/-! ### What is found in a map -/

@[simp] theorem get?_empty (k : String) : (empty : SortedMap α).get? k = none := rfl

theorem find?_cons_key (k : String) (e : String × α) (es : List (String × α)) :
    (e :: es).find? (·.1 == k) = if k = e.1 then some e else es.find? (·.1 == k) := by
  rw [List.find?_cons]
  by_cases hk : k = e.1
  · simp [hk]
  · have hno : (e.1 == k) = false := by simpa using Ne.symm hk
    rw [hno, if_neg hk]

theorem find?_insertEntry (key : String) (value : α) (k : String) : ∀ es : List (String × α),
    (insertEntry key value es).find? (·.1 == k) =
      if k = key then some (key, value) else es.find? (·.1 == k) := by
  intro es
  induction es with
  | nil => exact find?_cons_key k (key, value) []
  | cons e es ih =>
    rw [insertEntry]
    split
    · exact find?_cons_key k (key, value) (e :: es)
    · split
      · -- the entry that is replaced has the key itself
        next hkey =>
        rw [find?_cons_key, find?_cons_key, ← hkey]
        by_cases hk : k = key <;> simp [hk]
      · -- the entry before the place of the new one has another key
        next hkey =>
        rw [find?_cons_key, ih, find?_cons_key]
        by_cases hk : k = key
        · rw [if_pos hk, if_pos hk, if_neg (hk ▸ hkey)]
        · rw [if_neg hk, if_neg hk]

/-- **What is found after an insertion.** -/
theorem get?_insert (m : SortedMap α) (key : String) (value : α) (k : String) :
    (m.insert key value).get? k = if k = key then some value else m.get? k := by
  rw [get?, insert, find?_insertEntry]
  split <;> rfl

/-- The keys grow, so an entry is found at its key. -/
theorem get?_eq_some_iff {m : SortedMap α} {k : String} {v : α} :
    m.get? k = some v ↔ (k, v) ∈ m.entries := by
  obtain ⟨es, hes⟩ := m
  simp only [get?]
  constructor
  · intro h
    obtain ⟨e, he, rfl⟩ := Option.map_eq_some_iff.mp h
    obtain rfl : e.1 = k := by simpa using List.find?_some he
    exact List.mem_of_find?_eq_some he
  · intro h
    induction es with
    | nil => cases h
    | cons e es ih =>
      obtain ⟨he, hrest⟩ := List.pairwise_cons.mp hes
      rw [find?_cons_key]
      rcases List.mem_cons.mp h with rfl | hmem
      · simp
      · have hne : k ≠ e.1 := by
          intro heq
          have hlt := he _ hmem
          rw [← heq] at hlt
          exact String.lt_irrefl _ hlt
        rw [if_neg hne]
        exact ih hrest hmem

/-- **Two maps in which the same is found are equal.** -/
theorem ext_get? {m m' : SortedMap α} (h : ∀ k, m.get? k = m'.get? k) : m = m' := by
  have hmem : ∀ e, e ∈ m.entries ↔ e ∈ m'.entries := by
    rintro ⟨k, v⟩
    rw [← get?_eq_some_iff, ← get?_eq_some_iff, h k]
  have hnodup : ∀ m : SortedMap α, m.entries.Nodup := by
    intro m
    refine m.sorted.imp fun {a b} hlt => ?_
    rintro rfl
    exact String.lt_irrefl _ hlt
  have hentries : m.entries = m'.entries := by
    refine List.Perm.eq_of_pairwise ?_ m.sorted m'.sorted
      ((List.perm_ext_iff_of_nodup (hnodup m) (hnodup m')).mpr hmem)
    intro a b _ _ hab hba
    exact absurd (String.lt_trans hab hba) (String.lt_irrefl _)
  cases m
  cases m'
  congr

/-- What is found in a map made of a list: the last entry of the list at the key. -/
theorem get?_foldl_insert (k : String) : ∀ (es : List (String × α)) (m : SortedMap α),
    (es.foldl (fun m e => m.insert e.1 e.2) m).get? k =
      ((es.reverse.find? (·.1 == k)).map Prod.snd).or (m.get? k) := by
  intro es
  induction es with
  | nil => intro m; rfl
  | cons e es ih =>
    intro m
    rw [List.foldl_cons, ih, get?_insert, List.reverse_cons, List.find?_append]
    cases es.reverse.find? (·.1 == k) with
    | some _ => rfl
    | none =>
      rw [find?_cons_key]
      by_cases hk : k = e.1 <;> simp [hk]

/-- **A map is made of its entries.** -/
theorem ofList_entries (m : SortedMap α) : ofList m.entries = m := by
  refine ext_get? fun k => ?_
  rw [ofList, get?_foldl_insert, get?_empty, Option.or_none]
  -- the keys grow, so the last entry at a key is the only one
  cases hk : m.get? k with
  | none =>
    rw [Option.map_eq_none_iff, List.find?_eq_none]
    intro e he hek
    obtain rfl : e.1 = k := by simpa using hek
    have hfound := get?_eq_some_iff.mpr (List.mem_reverse.mp he)
    rw [hk] at hfound
    cases hfound
  | some v =>
    have hsome : (m.entries.reverse.find? (·.1 == k)).isSome = true := by
      rw [List.find?_isSome]
      exact ⟨(k, v), List.mem_reverse.mpr (get?_eq_some_iff.mp hk), by simp⟩
    obtain ⟨e, he⟩ := Option.isSome_iff_exists.mp hsome
    obtain rfl : e.1 = k := by simpa using List.find?_some he
    have hfound := get?_eq_some_iff.mpr (List.mem_reverse.mp (List.mem_of_find?_eq_some he))
    rw [he, ← hk, hfound]
    rfl

end SortedMap

end NameBinding
