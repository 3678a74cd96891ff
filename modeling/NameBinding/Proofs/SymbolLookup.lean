import NameBinding.Symbol

/-!
# Finding symbol classes

A symbol class is looked for in one name space after the other, and in each of them from the front.
That walk ends at the least of the positions at which the class stands, where positions are ordered
by name space and then by place.  So a class is found where a position names it: at that very
position if no class stands twice, and else at the least of them.

## Main definitions

* `SymbolTable.IsFirst` — the least position of a class.

## Main results

* `SymbolTable.isFirst_of_indexOf?`, `SymbolTable.exists_indexOf?` — what is found is the least
  position, and a class that stands somewhere is found.
* `SymbolTable.nameOf?_inj` — without repeated classes no two positions have one name.
* `SymbolTable.indexOf?_least_inverse` — **looking up a class is the least inverse of naming a
  position.**
-/

namespace NameBinding

/-! ### The order of positions -/

namespace SymbolIndex

variable {i j : SymbolIndex}

theorem isLE_compare_iff : (Ord.compare i j).isLE = true ↔
    i.space < j.space ∨ i.space = j.space ∧ i.position ≤ j.position := by
  show ((Ord.compare i.space j.space).then (Ord.compare i.position j.position)).isLE = true ↔ _
  rw [Ordering.isLE_then_iff_or, Nat.compare_eq_lt, Nat.compare_eq_eq, Nat.isLE_compare]

theorem eq_of_isLE_compare (hij : (Ord.compare i j).isLE = true)
    (hji : (Ord.compare j i).isLE = true) : i = j := by
  rw [isLE_compare_iff] at hij hji
  obtain ⟨space, place⟩ := i
  obtain ⟨space', place'⟩ := j
  rw [SymbolIndex.mk.injEq]
  dsimp only at hij hji
  omega

/-- The position when one more name space comes first. -/
def next (i : SymbolIndex) : SymbolIndex := ⟨i.space + 1, i.position⟩

theorem isLE_compare_next : (Ord.compare i.next j.next).isLE = (Ord.compare i j).isLE := by
  rw [Bool.eq_iff_iff, isLE_compare_iff, isLE_compare_iff]
  simp only [next]
  omega

/-- A position in the first name space, or one in the others. -/
theorem cases_next (i : SymbolIndex) : (∃ place, i = ⟨0, place⟩) ∨ ∃ k, i = next k := by
  obtain ⟨space, place⟩ := i
  cases space with
  | zero => exact Or.inl ⟨place, rfl⟩
  | succ k => exact Or.inr ⟨⟨k, place⟩, rfl⟩

end SymbolIndex

namespace SymbolTable

variable {t : SymbolTable} {names : List String} {rest : List (List String)} {s : String}
  {id id' : SymbolIndex}

/-! ### Tables by their first name space -/

theorem nameOf?_cons_zero (place : Nat) : nameOf? ⟨names :: rest⟩ ⟨0, place⟩ = names[place]? := rfl

theorem nameOf?_cons_next (id : SymbolIndex) :
    nameOf? ⟨names :: rest⟩ id.next = nameOf? ⟨rest⟩ id := rfl

theorem findFrom_succ (s : String) (k : Nat) (spaces : List (List String)) :
    findFrom s (k + 1) spaces = (findFrom s k spaces).map SymbolIndex.next := by
  induction spaces generalizing k with
  | nil => rfl
  | cons names rest ih =>
    rw [findFrom, findFrom]
    cases names.idxOf? s with
    | none => exact ih (k + 1)
    | some place => rfl

theorem indexOf?_cons_of_mem {place : Nat} (h : names.idxOf? s = some place) :
    indexOf? ⟨names :: rest⟩ s = some ⟨0, place⟩ := by
  rw [indexOf?, findFrom, h]

theorem indexOf?_cons_of_not_mem (h : names.idxOf? s = none) :
    indexOf? ⟨names :: rest⟩ s = (indexOf? ⟨rest⟩ s).map SymbolIndex.next := by
  rw [indexOf?, findFrom, h]
  exact findFrom_succ s 0 rest

/-! ### The least position -/

/-- The position has the name `s`, and no lesser one does. -/
structure IsFirst (t : SymbolTable) (s : String) (id : SymbolIndex) : Prop where
  name_eq : t.nameOf? id = some s
  isLE : ∀ id', t.nameOf? id' = some s → (Ord.compare id id').isLE = true

theorem IsFirst.unique (h : t.IsFirst s id) (h' : t.IsFirst s id') : id = id' :=
  SymbolIndex.eq_of_isLE_compare (h.isLE id' h'.name_eq) (h'.isLE id h.name_eq)

/-- In the first name space that has the class, its first place is the least position. -/
theorem isFirst_cons_zero {place : Nat} (h : names.idxOf? s = some place) :
    IsFirst ⟨names :: rest⟩ s ⟨0, place⟩ where
  name_eq := by
    obtain ⟨hlt, hname, -⟩ := List.idxOf?_eq_some_iff.mp h
    exact List.getElem?_eq_some_iff.mpr ⟨hlt, hname⟩
  isLE := by
    intro id' hid'
    rw [SymbolIndex.isLE_compare_iff]
    obtain ⟨place', rfl⟩ | ⟨k, rfl⟩ := id'.cases_next
    · -- an earlier place of the same name space would have been found
      refine Or.inr ⟨rfl, Nat.le_of_not_lt fun hlt => ?_⟩
      obtain ⟨_, _, hfirst⟩ := List.idxOf?_eq_some_iff.mp h
      exact hfirst place' hlt (List.getElem?_eq_some_iff.mp hid').2
    · exact Or.inl (Nat.succ_pos _)

/-- A first name space without the class is passed over. -/
theorem IsFirst.cons_next (hnot : s ∉ names) (h : IsFirst ⟨rest⟩ s id) :
    IsFirst ⟨names :: rest⟩ s id.next where
  name_eq := h.name_eq
  isLE := by
    intro id' hid'
    obtain ⟨place, rfl⟩ | ⟨k, rfl⟩ := id'.cases_next
    · exact absurd (List.mem_of_getElem? hid') hnot
    · rw [SymbolIndex.isLE_compare_next]
      exact h.isLE k hid'

/-- **What is found is the least position of the class.** -/
theorem isFirst_of_indexOf? (h : t.indexOf? s = some id) : t.IsFirst s id := by
  obtain ⟨spaces⟩ := t
  induction spaces generalizing id with
  | nil => cases h
  | cons names rest ih =>
    cases hplace : names.idxOf? s with
    | some place =>
      rw [indexOf?_cons_of_mem hplace] at h
      obtain rfl := Option.some.inj h
      exact isFirst_cons_zero hplace
    | none =>
      rw [indexOf?_cons_of_not_mem hplace] at h
      obtain ⟨found, hfound, rfl⟩ := Option.map_eq_some_iff.mp h
      exact (ih hfound).cons_next (List.idxOf?_eq_none_iff.mp hplace)

/-- **A class that stands somewhere is found.** -/
theorem exists_indexOf? (h : t.nameOf? id = some s) : ∃ found, t.indexOf? s = some found := by
  obtain ⟨spaces⟩ := t
  induction spaces generalizing id with
  | nil => cases h
  | cons names rest ih =>
    cases hplace : names.idxOf? s with
    | some place => exact ⟨_, indexOf?_cons_of_mem hplace⟩
    | none =>
      obtain ⟨place, rfl⟩ | ⟨k, rfl⟩ := id.cases_next
      · exact absurd (List.mem_of_getElem? h) (List.idxOf?_eq_none_iff.mp hplace)
      · obtain ⟨found, hfound⟩ := ih h
        exact ⟨found.next, by rw [indexOf?_cons_of_not_mem hplace, hfound]; rfl⟩

theorem indexOf?_eq_some_iff : t.indexOf? s = some id ↔ t.IsFirst s id := by
  constructor
  · exact isFirst_of_indexOf?
  · intro h
    obtain ⟨found, hfound⟩ := exists_indexOf? h.name_eq
    rw [hfound, (isFirst_of_indexOf? hfound).unique h]

/-! ### Tables without repeated classes -/

theorem mem_flatten_of_nameOf? (h : t.nameOf? id = some s) : s ∈ t.spaces.flatten := by
  obtain ⟨names, hnames, hplace⟩ := Option.bind_eq_some_iff.mp h
  exact List.mem_flatten_of_mem (List.mem_of_getElem? hnames) (List.mem_of_getElem? hplace)

/-- **Without repeated classes no two positions have one name.** -/
theorem nameOf?_inj (hdistinct : t.spaces.flatten.Nodup) (h : t.nameOf? id = some s)
    (h' : t.nameOf? id' = some s) : id = id' := by
  obtain ⟨spaces⟩ := t
  induction spaces generalizing id id' with
  | nil => cases h
  | cons names rest ih =>
    obtain ⟨hnames, hrest, hapart⟩ := List.nodup_append.mp hdistinct
    obtain ⟨place, rfl⟩ | ⟨k, rfl⟩ := id.cases_next <;>
      obtain ⟨place', rfl⟩ | ⟨k', rfl⟩ := id'.cases_next
    · rw [nameOf?_cons_zero] at h h'
      have hlt := (List.getElem?_eq_some_iff.mp h).1
      rw [(List.getElem?_inj hlt hnames).mp (h.trans h'.symm)]
    · rw [nameOf?_cons_next] at h'
      exact absurd rfl (hapart s (List.mem_of_getElem? h) s (mem_flatten_of_nameOf? h'))
    · rw [nameOf?_cons_next] at h
      exact absurd rfl (hapart s (List.mem_of_getElem? h') s (mem_flatten_of_nameOf? h))
    · rw [ih hrest h h']

/-- **Looking up a class is the least inverse of naming a position.**  The position that is found
has the name, and it is the least one that has; nothing is found just if no position has the name;
and in a table without repeated classes every position is found by its name. -/
theorem indexOf?_least_inverse (t : SymbolTable) (s : String) :
    (∀ id, t.indexOf? s = some id ↔ t.nameOf? id = some s ∧
      ∀ id', t.nameOf? id' = some s → (Ord.compare id id').isLE = true) ∧
    (t.indexOf? s = none ↔ ∀ id, t.nameOf? id ≠ some s) ∧
    (t.spaces.flatten.Nodup → ∀ id, t.nameOf? id = some s → t.indexOf? s = some id) := by
  refine ⟨fun id => ?_, ⟨?_, ?_⟩, ?_⟩
  · rw [indexOf?_eq_some_iff]
    exact ⟨fun h => ⟨h.name_eq, h.isLE⟩, fun h => ⟨h.1, h.2⟩⟩
  · intro hnone id hid
    obtain ⟨found, hfound⟩ := exists_indexOf? hid
    rw [hnone] at hfound
    cases hfound
  · intro hnot
    cases hfound : t.indexOf? s with
    | none => rfl
    | some id => exact absurd (isFirst_of_indexOf? hfound).name_eq (hnot id)
  · intro hdistinct id hid
    obtain ⟨found, hfound⟩ := exists_indexOf? hid
    rw [hfound, nameOf?_inj hdistinct (isFirst_of_indexOf? hfound).name_eq hid]

/-- A class that stands twice in one name space and again in a later one, after an empty one; and
a table without repeated classes. -/
theorem indexOf?_least_inverse_repeated :
    let t : SymbolTable := ⟨[[], ["struct", "field", "field"], ["field"]]⟩
    let distinct : SymbolTable := ⟨[["struct", "enum"], [], ["field"]]⟩
    t.nameOf? ⟨1, 2⟩ = some "field" ∧ t.nameOf? ⟨2, 0⟩ = some "field" ∧
      t.indexOf? "field" = some ⟨1, 1⟩ ∧ t.indexOf? "enum" = none ∧
      distinct.spaces.flatten.Nodup ∧ distinct.indexOf? "field" = some ⟨2, 0⟩ := by
  intro t distinct
  have hnodup : distinct.spaces.flatten.Nodup := by decide
  exact ⟨by decide, by decide, by decide, by decide, hnodup,
    (indexOf?_least_inverse distinct "field").2.2 hnodup ⟨2, 0⟩ (by decide)⟩

end SymbolTable
end NameBinding
