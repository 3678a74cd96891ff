import NameBinding.Span
import NameBinding.Text.Position

/-!
# Offsets, lines and columns

A position in a text is given by its byte offset, or by its line and its column.  One way is
found by counting the line breaks before the offset, the other by looking for the break before
the line.  Line breaks come in increasing order, so every offset lies in one line, from its
start to its end, and the two ways are inverse to each other.

## Main definitions

* `Text.InLine` — an offset lies in a line.

## Main results

* `Text.pairwise_newlines` — line breaks come in increasing order.
* `Text.exists_inLine`, `Text.InLine.unique` — **every offset lies in exactly one line.**
* `Text.offsetAt_eq_some_iff`, `Text.ofByte_eq_iff` — the two ways to find a position.
* `Text.offsetAt_inverse_ofByte` — **they are inverse to each other.**
-/

namespace NameBinding
namespace Text

/-! ### Line breaks -/

theorem bounds_of_mem_newlinesFrom {cs : List Char} {base n : Nat}
    (hn : n ∈ newlinesFrom base cs) : base ≤ n ∧ n < base + byteLength cs := by
  induction cs generalizing base with
  | nil => cases hn
  | cons c cs ih =>
    have hpos := c.utf8Size_pos
    rw [byteLength]
    rw [newlinesFrom] at hn
    split at hn
    · rcases List.mem_cons.mp hn with rfl | hn
      · omega
      · have := ih hn
        omega
    · have := ih hn
      omega

theorem pairwise_newlinesFrom (base : Nat) (cs : List Char) :
    (newlinesFrom base cs).Pairwise (· < ·) := by
  induction cs generalizing base with
  | nil => exact .nil
  | cons c cs ih =>
    rw [newlinesFrom]
    split
    · refine List.pairwise_cons.mpr ⟨fun n hn => ?_, ih _⟩
      have hpos := c.utf8Size_pos
      have hbase := (bounds_of_mem_newlinesFrom hn).1
      omega
    · exact ih _

variable {cs : List Char}

theorem lt_byteLength_of_mem_newlines {n : Nat} (hn : n ∈ newlines cs) : n < byteLength cs := by
  have hlt := (bounds_of_mem_newlinesFrom hn).2
  omega

/-- **Line breaks come in increasing order.** -/
theorem pairwise_newlines (cs : List Char) : (newlines cs).Pairwise (· < ·) :=
  pairwise_newlinesFrom 0 cs

theorem newlines_lt {i j m n : Nat} (hm : (newlines cs)[i]? = some m)
    (hn : (newlines cs)[j]? = some n) (hij : i < j) : m < n := by
  obtain ⟨hi, rfl⟩ := List.getElem?_eq_some_iff.mp hm
  obtain ⟨hj, rfl⟩ := List.getElem?_eq_some_iff.mp hn
  exact List.pairwise_iff_getElem.mp (pairwise_newlines cs) i j hi hj hij

/-- Of increasing numbers, those below a bound come first. -/
theorem filter_lt_eq_take {ns : List Nat} (h : ns.Pairwise (· < ·)) (b : Nat) :
    ns.filter (· < b) = ns.take (ns.filter (· < b)).length := by
  induction ns with
  | nil => rfl
  | cons n ns ih =>
    obtain ⟨hlt, hrest⟩ := List.pairwise_cons.mp h
    by_cases hn : n < b
    · simpa [hn] using ih hrest
    · have hnone : ns.filter (· < b) = [] := by
        rw [List.filter_eq_nil_iff]
        intro m hm
        have := hlt m hm
        simp only [decide_eq_true_eq]
        omega
      simp [hn, hnone]

/-! ### Lines -/

theorem startOfLine?_one (cs : List Char) : startOfLine? cs 1 = some 0 := rfl

theorem startOfLine?_succ (cs : List Char) (k : Nat) :
    startOfLine? cs (k + 2) = (newlines cs)[k]?.map (· + 1) := by
  rw [startOfLine?, if_neg (by omega)]
  rfl

/-- The line break before a line, which the first line has not. -/
theorem startOfLine?_cases {row start : Nat} (h : startOfLine? cs (row + 1) = some start) :
    row = 0 ∧ start = 0 ∨
      ∃ k n, row = k + 1 ∧ (newlines cs)[k]? = some n ∧ start = n + 1 := by
  cases row with
  | zero =>
    rw [startOfLine?_one] at h
    exact Or.inl ⟨rfl, (Option.some.inj h).symm⟩
  | succ k =>
    rw [startOfLine?_succ] at h
    obtain ⟨n, hn, rfl⟩ := Option.map_eq_some_iff.mp h
    exact Or.inr ⟨k, n, rfl, hn, rfl⟩

/-- A line ends at a line break or with the text. -/
theorem lineStop_cases (cs : List Char) (offset : Nat) :
    (lineStop cs offset ∈ newlines cs ∧ offset ≤ lineStop cs offset) ∨
      lineStop cs offset = byteLength cs := by
  unfold lineStop
  cases hf : (newlines cs).find? (offset ≤ ·) with
  | none => exact Or.inr rfl
  | some n =>
    have hle := List.find?_some hf
    rw [decide_eq_true_eq] at hle
    exact Or.inl ⟨List.mem_of_find?_eq_some hf, hle⟩

theorem lineStop_le_byteLength (cs : List Char) (offset : Nat) :
    lineStop cs offset ≤ byteLength cs := by
  rcases lineStop_cases cs offset with ⟨hmem, -⟩ | heq
  · exact Nat.le_of_lt (lt_byteLength_of_mem_newlines hmem)
  · exact Nat.le_of_eq heq

/-- It ends at the first line break. -/
theorem lineStop_le {offset n : Nat} (hn : n ∈ newlines cs) (hle : offset ≤ n) :
    lineStop cs offset ≤ n := by
  unfold lineStop
  cases hf : (newlines cs).find? (offset ≤ ·) with
  | none =>
    rw [List.find?_eq_none] at hf
    exact absurd (decide_eq_true hle) (hf n hn)
  | some m =>
    obtain ⟨-, before, after, hsplit, hbefore⟩ := List.find?_eq_some_iff_append.mp hf
    have hsorted := pairwise_newlines cs
    rw [hsplit] at hn hsorted
    rcases List.mem_append.mp hn with hn | hn
    · have hno := hbefore n hn
      simp [hle] at hno
    · rcases List.mem_cons.mp hn with rfl | hn
      · exact Nat.le_refl n
      · exact Nat.le_of_lt (List.rel_of_pairwise_cons (List.pairwise_append.mp hsorted).2.1 hn)

/-- The offset lies in the line `row`, counted from zero, that begins at `start`, or just after
its last byte. -/
structure InLine (cs : List Char) (row start offset : Nat) : Prop where
  start_eq : startOfLine? cs (row + 1) = some start
  start_le : start ≤ offset
  le_stop : offset ≤ lineStop cs start

namespace InLine

variable {row start offset row' start' offset' : Nat}

theorem le_byteLength (h : InLine cs row start offset) : offset ≤ byteLength cs :=
  Nat.le_trans h.le_stop (lineStop_le_byteLength cs start)

/-- A later offset lies in no earlier line: a line begins after the end of those above it. -/
theorem row_le (h : InLine cs row start offset) (h' : InLine cs row' start' offset')
    (hle : offset' ≤ offset) : row' ≤ row := by
  refine Nat.le_of_not_lt fun hlt => ?_
  rcases startOfLine?_cases h'.start_eq with ⟨rfl, -⟩ | ⟨k, n, rfl, hn, rfl⟩
  · omega
  · -- the break before the later line is not before the start of the earlier one
    have hstart : start ≤ n := by
      rcases startOfLine?_cases h.start_eq with ⟨-, rfl⟩ | ⟨j, m, rfl, hm, rfl⟩
      · exact Nat.zero_le n
      · exact newlines_lt hm hn (by omega)
    have hstop := lineStop_le (List.mem_of_getElem? hn) hstart
    have := h.le_stop
    have := h'.start_le
    omega

/-- **No offset lies in two lines.** -/
theorem unique (h : InLine cs row start offset) (h' : InLine cs row' start' offset) :
    row = row' ∧ start = start' := by
  obtain rfl : row = row' :=
    Nat.le_antisymm (h'.row_le h (Nat.le_refl _)) (h.row_le h' (Nat.le_refl _))
  exact ⟨rfl, Option.some.inj (h.start_eq.symm.trans h'.start_eq)⟩

end InLine

/-- The line break before an offset is the last one of those before it. -/
theorem startOfLine?_lineStart (cs : List Char) (offset : Nat) :
    startOfLine? cs (((newlines cs).filter (· < offset)).length + 1) =
      some (lineStart cs offset) := by
  have htake := filter_lt_eq_take (pairwise_newlines cs) offset
  unfold lineStart
  cases hlength : ((newlines cs).filter (· < offset)).length with
  | zero =>
    rw [List.length_eq_zero_iff.mp hlength]
    exact startOfLine?_one cs
  | succ k =>
    have hk : k < (newlines cs).length := by
      have := List.length_filter_le (· < offset) (newlines cs)
      omega
    have hlast : ((newlines cs).filter (· < offset)).getLast? = (newlines cs)[k]? := by
      rw [htake, hlength, List.take_add_one, List.getElem?_eq_getElem hk, Option.toList_some,
        List.getLast?_concat]
    rw [startOfLine?_succ, hlast, List.getElem?_eq_getElem hk]
    rfl

theorem lineStart_le (cs : List Char) (offset : Nat) : lineStart cs offset ≤ offset := by
  unfold lineStart
  split
  · next n hn =>
    have hmem := List.mem_of_getLast? hn
    rw [List.mem_filter, decide_eq_true_eq] at hmem
    exact hmem.2
  · exact Nat.zero_le offset

theorem lt_lineStart {offset n : Nat} (hn : n ∈ newlines cs) (hlt : n < offset) :
    n < lineStart cs offset := by
  have hmem : n ∈ (newlines cs).filter (· < offset) := List.mem_filter.mpr ⟨hn, by simpa using hlt⟩
  have hsorted := (pairwise_newlines cs).filter (· < offset)
  unfold lineStart
  split
  · next m hm =>
    obtain ⟨before, hsplit⟩ := List.getLast?_eq_some_iff.mp hm
    rw [hsplit] at hmem hsorted
    rcases List.mem_append.mp hmem with hmem | hmem
    · have := (List.pairwise_append.mp hsorted).2.2 n hmem m (List.mem_singleton.mpr rfl)
      omega
    · rw [List.mem_singleton.mp hmem]
      exact Nat.lt_succ_self m
  · next hnone =>
    rw [List.getLast?_eq_none_iff.mp hnone] at hmem
    cases hmem

/-- **Every offset lies in a line**: as many line breaks come before it as lines do. -/
theorem exists_inLine {offset : Nat} (h : offset ≤ byteLength cs) :
    InLine cs ((newlines cs).filter (· < offset)).length (lineStart cs offset) offset where
  start_eq := startOfLine?_lineStart cs offset
  start_le := lineStart_le cs offset
  le_stop := by
    rcases lineStop_cases cs (lineStart cs offset) with ⟨hmem, hle⟩ | heq
    · -- a break before the offset would come before the start of the line
      refine Nat.le_of_not_lt fun hlt => ?_
      have := lt_lineStart hmem hlt
      omega
    · rw [heq]
      exact h

/-! ### The two ways to a position -/

/-- An offset is found from the line it lies in, if it is a size. -/
theorem offsetAt_eq_some_iff {row column offset : Nat} :
    offsetAt cs (row + 1) (column + 1) = .ok (some offset) ↔
      offset < Size.bound ∧ ∃ start, InLine cs row start offset ∧ start + column = offset := by
  unfold offsetAt
  cases hs : startOfLine? cs (row + 1) with
  | none =>
    constructor
    · intro h
      cases h
    · rintro ⟨-, start, hline, -⟩
      cases hs.symm.trans hline.start_eq
  | some start =>
    simp only [Nat.add_sub_cancel, Size.add]
    split
    · next hsize =>
      simp only [bind, Except.bind, pure, Except.pure, Except.ok.injEq,
        Option.ite_none_right_eq_some, Option.some.injEq]
      constructor
      · rintro ⟨hstop, rfl⟩
        exact ⟨hsize, start, ⟨hs, Nat.le_add_right .., hstop⟩, rfl⟩
      · rintro ⟨-, start', hline, rfl⟩
        cases hs.symm.trans hline.start_eq
        exact ⟨hline.le_stop, rfl⟩
    · next hsize =>
      constructor
      · intro h
        cases h
      · rintro ⟨hlt, start', hline, rfl⟩
        cases hs.symm.trans hline.start_eq
        exact absurd hlt hsize

theorem ofByte_of_le {source : String} {offset : Nat} (h : offset ≤ byteLength source.toList) :
    Point.ofByte source offset = ⟨offset, ((newlines source.toList).filter (· < offset)).length,
      offset - lineStart source.toList offset⟩ := by
  simp only [Point.ofByte, Nat.min_eq_left h]

/-- A point is found by the line its offset lies in. -/
theorem ofByte_eq_iff {source : String} {row column offset : Nat}
    (h : offset ≤ byteLength source.toList) :
    Point.ofByte source offset = ⟨offset, row, column⟩ ↔
      ∃ start, InLine source.toList row start offset ∧ start + column = offset := by
  have hline := exists_inLine h
  have hle := hline.start_le
  rw [ofByte_of_le h, Point.mk.injEq]
  constructor
  · rintro ⟨-, rfl, rfl⟩
    exact ⟨_, hline, by omega⟩
  · rintro ⟨start, hline', hsum⟩
    obtain ⟨hrow, hstart⟩ := hline.unique hline'
    exact ⟨rfl, hrow, by omega⟩

/-- **Offsets and positions by line and column are inverse to each other.**  The offset of the
line and the column of a point, counted from one, is the offset of the point.  And the point at
the offset of a line and a column has this line and this column. -/
theorem offsetAt_inverse_ofByte (source : String) :
    (∀ offset, offset ≤ byteLength source.toList → offset < Size.bound →
      offsetAt source.toList ((Point.ofByte source offset).row + 1)
        ((Point.ofByte source offset).column + 1) = .ok (some offset)) ∧
    ∀ line column offset, 1 ≤ line → 1 ≤ column →
      offsetAt source.toList line column = .ok (some offset) →
        Point.ofByte source offset = ⟨offset, line - 1, column - 1⟩ := by
  constructor
  · intro offset hle hsize
    refine offsetAt_eq_some_iff.mpr ⟨hsize, (ofByte_eq_iff hle).mp ?_⟩
    rw [ofByte_of_le hle]
  · intro line column offset hline hcolumn h
    obtain ⟨row, rfl⟩ : ∃ row, line = row + 1 := ⟨line - 1, by omega⟩
    obtain ⟨column, rfl⟩ : ∃ k, column = k + 1 := ⟨column - 1, by omega⟩
    obtain ⟨-, start, hstart, hsum⟩ := offsetAt_eq_some_iff.mp h
    exact (ofByte_eq_iff hstart.le_byteLength).mpr ⟨start, hstart, hsum⟩

/-- Inside a character of the second line, and at the break after the first one. -/
theorem offsetAt_inverse_ofByte_inside :
    let source := "é\n§x"
    4 ≤ byteLength source.toList ∧ 4 < Size.bound ∧
      offsetAt source.toList 2 2 = .ok (some 4) ∧ Point.ofByte source 4 = ⟨4, 1, 1⟩ ∧
      Point.ofByte source 2 = ⟨2, 0, 2⟩ ∧ offsetAt source.toList 1 3 = .ok (some 2) := by
  intro source
  have hchars : source.toList = ['é', '\n', '§', 'x'] := by decide
  have hinside : offsetAt source.toList 2 2 = .ok (some 4) := by
    rw [hchars]
    rfl
  have hbreak : Point.ofByte source 2 = ⟨2, 0, 2⟩ := by decide
  obtain ⟨hoffset, hpoint⟩ := offsetAt_inverse_ofByte source
  have hfound := hoffset 2 (by decide) (by decide)
  rw [hbreak] at hfound
  exact ⟨by decide, by decide, hinside, hpoint 2 2 4 (by decide) (by decide) hinside, hbreak,
    hfound⟩

end Text
end NameBinding
