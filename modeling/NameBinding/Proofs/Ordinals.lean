import NameBinding.Proofs.SymbolLookup

/-!
# Ordinals of symbol classes

The name spaces of a table, written one after the other, make one list of symbol classes.  The
ordinal of a position is its place in that list: the sizes of the name spaces before it, and then
its own place.  An empty name space adds nothing, so two name spaces may begin at one ordinal; it
has no positions either, so no two positions share one.

## Main results

* `SymbolTable.ordinal?_cons_zero`, `SymbolTable.ordinal?_cons_next` — ordinals by the first name
  space of a table, from which the others are shown.
* `SymbolTable.getElem?_of_ordinal?` — what stands at an ordinal is the class of its position.
* `SymbolTable.ordinal?_lt_of_lt` — a lesser position has a lesser ordinal.
* `SymbolTable.exists_ordinal?` — every place of the list is an ordinal.
* `SymbolTable.ordinal?_numbers` — **the ordinals number the positions of a table in order.**
-/

namespace NameBinding

namespace SymbolIndex

variable {i j : SymbolIndex}

theorem compare_eq_lt_iff : Ord.compare i j = .lt ↔
    i.space < j.space ∨ i.space = j.space ∧ i.position < j.position := by
  show (Ord.compare i.space j.space).then (Ord.compare i.position j.position) = .lt ↔ _
  rw [Ordering.then_eq_lt, Nat.compare_eq_lt, Nat.compare_eq_eq, Nat.compare_eq_lt]

/-- Of two positions one is the lesser, unless they are the same. -/
theorem lt_or_eq_or_gt (i j : SymbolIndex) :
    Ord.compare i j = .lt ∨ i = j ∨ Ord.compare j i = .lt := by
  obtain ⟨space, place⟩ := i
  obtain ⟨space', place'⟩ := j
  rw [compare_eq_lt_iff, compare_eq_lt_iff, SymbolIndex.mk.injEq]
  dsimp only
  omega

end SymbolIndex

namespace SymbolTable

variable {t : SymbolTable} {names : List String} {rest : List (List String)}
  {id id' : SymbolIndex} {k k' : Nat}

/-! ### Ordinals by the first name space -/

theorem ordinal?_cons_zero (place : Nat) : ordinal? ⟨names :: rest⟩ ⟨0, place⟩ =
    if place < names.length then some place else none := by
  show (if place < names.length then some (0 + place) else none) = _
  rw [Nat.zero_add]

theorem ordinal?_cons_next (id : SymbolIndex) : ordinal? ⟨names :: rest⟩ id.next =
    (ordinal? ⟨rest⟩ id).map (names.length + ·) := by
  simp only [ordinal?, SymbolIndex.next, List.getElem?_cons_succ, List.take_succ_cons,
    List.flatten_cons, List.length_append]
  cases rest[id.space]? with
  | none => rfl
  | some space =>
    dsimp only
    split
    · rw [Option.map_some, Nat.add_assoc]
    · rfl

/-- The ordinal of a position in the first name space is its place there. -/
theorem ordinal?_cons_zero_eq_some {place : Nat} :
    ordinal? ⟨names :: rest⟩ ⟨0, place⟩ = some k ↔ place < names.length ∧ place = k := by
  rw [ordinal?_cons_zero, Option.ite_none_right_eq_some, Option.some.injEq]

/-- The ordinal of a later position comes after the first name space. -/
theorem ordinal?_cons_next_eq_some : ordinal? ⟨names :: rest⟩ id.next = some k ↔
    ∃ n, ordinal? ⟨rest⟩ id = some n ∧ names.length + n = k := by
  rw [ordinal?_cons_next, Option.map_eq_some_iff]

/-! ### The class at an ordinal -/

theorem isSome_ordinal? (t : SymbolTable) (id : SymbolIndex) :
    (t.ordinal? id).isSome = (t.nameOf? id).isSome := by
  obtain ⟨spaces⟩ := t
  induction spaces generalizing id with
  | nil => rfl
  | cons names rest ih =>
    obtain ⟨place, rfl⟩ | ⟨later, rfl⟩ := id.cases_next
    · rw [ordinal?_cons_zero, nameOf?_cons_zero]
      by_cases hplace : place < names.length <;> simp [hplace]
    · rw [ordinal?_cons_next, nameOf?_cons_next, Option.isSome_map]
      exact ih later

/-- **What stands at an ordinal is the class of its position.** -/
theorem getElem?_of_ordinal? (h : t.ordinal? id = some k) :
    t.spaces.flatten[k]? = t.nameOf? id := by
  obtain ⟨spaces⟩ := t
  induction spaces generalizing id k with
  | nil => cases h
  | cons names rest ih =>
    rw [List.flatten_cons]
    obtain ⟨place, rfl⟩ | ⟨later, rfl⟩ := id.cases_next
    · obtain ⟨hplace, rfl⟩ := ordinal?_cons_zero_eq_some.mp h
      exact List.getElem?_append_left hplace
    · obtain ⟨n, hn, rfl⟩ := ordinal?_cons_next_eq_some.mp h
      rw [List.getElem?_append_right (Nat.le_add_right ..), Nat.add_sub_cancel_left]
      exact ih hn

theorem ordinal?_lt (h : t.ordinal? id = some k) : k < t.spaces.flatten.length := by
  have hname : (t.nameOf? id).isSome = true := by rw [← isSome_ordinal?, h]; rfl
  rw [← getElem?_of_ordinal? h] at hname
  simpa using hname

/-- **Every place of the list is an ordinal.** -/
theorem exists_ordinal? (h : k < t.spaces.flatten.length) : ∃ id, t.ordinal? id = some k := by
  obtain ⟨spaces⟩ := t
  induction spaces generalizing k with
  | nil => exact absurd h (Nat.not_lt_zero k)
  | cons names rest ih =>
    rw [List.flatten_cons, List.length_append] at h
    by_cases hk : k < names.length
    · exact ⟨⟨0, k⟩, ordinal?_cons_zero_eq_some.mpr ⟨hk, rfl⟩⟩
    · obtain ⟨id, hid⟩ := @ih (k - names.length) (by dsimp only; omega)
      exact ⟨id.next, ordinal?_cons_next_eq_some.mpr ⟨_, hid, by omega⟩⟩

/-! ### The order of ordinals -/

/-- **A lesser position has a lesser ordinal.** -/
theorem ordinal?_lt_of_lt (h : t.ordinal? id = some k) (h' : t.ordinal? id' = some k')
    (hlt : Ord.compare id id' = .lt) : k < k' := by
  rw [SymbolIndex.compare_eq_lt_iff] at hlt
  obtain ⟨spaces⟩ := t
  induction spaces generalizing id id' k k' with
  | nil => cases h
  | cons names rest ih =>
    obtain ⟨place, rfl⟩ | ⟨later, rfl⟩ := id.cases_next <;>
      obtain ⟨place', rfl⟩ | ⟨later', rfl⟩ := id'.cases_next
    · obtain ⟨-, rfl⟩ := ordinal?_cons_zero_eq_some.mp h
      obtain ⟨-, rfl⟩ := ordinal?_cons_zero_eq_some.mp h'
      dsimp only at hlt
      omega
    · -- all of the first name space comes before the others
      obtain ⟨hplace, rfl⟩ := ordinal?_cons_zero_eq_some.mp h
      obtain ⟨n, -, rfl⟩ := ordinal?_cons_next_eq_some.mp h'
      omega
    · -- no later position is the lesser one
      simp only [SymbolIndex.next] at hlt
      omega
    · obtain ⟨n, hn, rfl⟩ := ordinal?_cons_next_eq_some.mp h
      obtain ⟨n', hn', rfl⟩ := ordinal?_cons_next_eq_some.mp h'
      simp only [SymbolIndex.next] at hlt
      have hrest : n < n' := ih (by omega) hn hn'
      omega

theorem ordinal?_lt_iff (h : t.ordinal? id = some k) (h' : t.ordinal? id' = some k') :
    Ord.compare id id' = .lt ↔ k < k' := by
  constructor
  · exact ordinal?_lt_of_lt h h'
  · intro hlt
    obtain hless | rfl | hgreater := SymbolIndex.lt_or_eq_or_gt id id'
    · exact hless
    · obtain rfl := Option.some.inj (h.symm.trans h')
      exact absurd hlt (Nat.lt_irrefl k)
    · exact absurd hlt (Nat.lt_asymm (ordinal?_lt_of_lt h' h hgreater))

/-- No two positions share an ordinal. -/
theorem ordinal?_inj (h : t.ordinal? id = some k) (h' : t.ordinal? id' = some k) : id = id' := by
  obtain hless | heq | hgreater := SymbolIndex.lt_or_eq_or_gt id id'
  · exact absurd (ordinal?_lt_of_lt h h' hless) (Nat.lt_irrefl k)
  · exact heq
  · exact absurd (ordinal?_lt_of_lt h' h hgreater) (Nat.lt_irrefl k)

/-- **The ordinals number the positions of a table in order.**  A position has an ordinal just if
it has a name.  The ordinals are the numbers below the number of all classes, and each of them is
the ordinal of one position only; positions and their ordinals have the same order; and in the
name spaces written one after the other, the class of a position stands at its ordinal. -/
theorem ordinal?_numbers (t : SymbolTable) :
    (∀ id, (t.ordinal? id).isSome = true ↔ (t.nameOf? id).isSome = true) ∧
    (∀ k, (∃ id, t.ordinal? id = some k) ↔ k < t.spaces.flatten.length) ∧
    (∀ id id' k, t.ordinal? id = some k → t.ordinal? id' = some k → id = id') ∧
    (∀ id id' k k', t.ordinal? id = some k → t.ordinal? id' = some k' →
      (Ord.compare id id' = .lt ↔ k < k')) ∧
    (∀ id k, t.ordinal? id = some k → t.spaces.flatten[k]? = t.nameOf? id) := by
  refine ⟨fun id => ?_, fun k => ⟨?_, exists_ordinal?⟩, fun _ _ _ => ordinal?_inj,
    fun _ _ _ _ => ordinal?_lt_iff, fun _ _ => getElem?_of_ordinal?⟩
  · rw [isSome_ordinal?]
  · rintro ⟨id, hid⟩
    exact ordinal?_lt hid

/-- Empty name spaces before, between and after the others. -/
theorem ordinal?_numbers_gaps :
    let t : SymbolTable := ⟨[[], ["struct", "enum"], [], [], ["field"], []]⟩
    t.ordinal? ⟨1, 1⟩ = some 1 ∧ t.ordinal? ⟨4, 0⟩ = some 2 ∧ t.ordinal? ⟨3, 0⟩ = none ∧
      (Ord.compare (⟨1, 1⟩ : SymbolIndex) ⟨4, 0⟩ = .lt ↔ 1 < 2) ∧
      t.spaces.flatten[2]? = t.nameOf? ⟨4, 0⟩ ∧
      ∀ id, t.ordinal? id = some 2 → id = ⟨4, 0⟩ := by
  intro t
  have henum : t.ordinal? ⟨1, 1⟩ = some 1 := by decide
  have hfield : t.ordinal? ⟨4, 0⟩ = some 2 := by decide
  obtain ⟨-, -, hinj, horder, hclass⟩ := ordinal?_numbers t
  exact ⟨henum, hfield, by decide, horder _ _ _ _ henum hfield, hclass _ _ hfield,
    fun id hid => hinj _ _ _ hid hfield⟩

end SymbolTable
end NameBinding
