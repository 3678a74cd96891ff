import NameBinding.Proofs.Positions
import NameBinding.Text.Lines

/-!
# The lines of a text

A text is its lines, put together with line breaks.  Where a line begins and ends, which is
found by looking for line breaks at byte offsets, is told by the bytes of the lines above it and
by its own.  So a position by line and column is in the text if there is such a line and the
column is not beyond its end; it is looked up by adding the column to the start of the line, and
that sum may break the bound of sizes.

## Main definitions

* `Text.lines` — the lines of a text.
* `Text.above` — the text above a line.
* `Text.Outside` — a position by line and column that is not in the text.
* `Text.Overflows` — a position whose offset is not a size.

## Main results

* `Text.lineStart_append`, `Text.lineStop_append` — the line around an offset.
* `Text.startOfLine?_eq_lines`, `Text.lineStop_above` — where a line begins and ends.
* `Text.offsetAt_answers_iff` — **a position is answered, with no offset just if it is outside
  the text, unless its offset is not a size.**
-/

namespace NameBinding
namespace Text

/-! ### Line breaks of texts that are put together -/

theorem byteLength_append (xs ys : List Char) :
    byteLength (xs ++ ys) = byteLength xs + byteLength ys := by
  induction xs with
  | nil => rw [List.nil_append, byteLength, Nat.zero_add]
  | cons x xs ih => rw [List.cons_append, byteLength, byteLength, ih, Nat.add_assoc]

theorem newlinesFrom_append (base : Nat) (xs ys : List Char) :
    newlinesFrom base (xs ++ ys) =
      newlinesFrom base xs ++ newlinesFrom (base + byteLength xs) ys := by
  induction xs generalizing base with
  | nil => rfl
  | cons x xs ih =>
    rw [List.cons_append, newlinesFrom, newlinesFrom, byteLength, ih, ← Nat.add_assoc]
    split <;> rfl

theorem newlines_append (xs ys : List Char) :
    newlines (xs ++ ys) = newlines xs ++ newlinesFrom (byteLength xs) ys := by
  rw [newlines, newlinesFrom_append, Nat.zero_add]
  rfl

theorem newlinesFrom_eq_nil {base : Nat} {cs : List Char} (h : '\n' ∉ cs) :
    newlinesFrom base cs = [] := by
  induction cs generalizing base with
  | nil => rfl
  | cons c cs ih =>
    rw [List.mem_cons, not_or] at h
    rw [newlinesFrom, if_neg (Ne.symm h.1), ih h.2]

theorem newlines_append_of_not_mem (xs : List Char) {part : List Char} (h : '\n' ∉ part) :
    newlines (xs ++ part) = newlines xs := by
  rw [newlines_append, newlinesFrom_eq_nil h, List.append_nil]

theorem newlines_concat (cs : List Char) :
    newlines (cs ++ ['\n']) = newlines cs ++ [byteLength cs] := by
  rw [newlines_append]
  rfl

/-- The line breaks before the end of a first part are those of that part. -/
theorem filter_newlines_append (xs ys : List Char) :
    (newlines (xs ++ ys)).filter (· < byteLength xs) = newlines xs := by
  rw [newlines_append, List.filter_append]
  have hfirst : (newlines xs).filter (· < byteLength xs) = newlines xs := by
    rw [List.filter_eq_self]
    intro n hn
    exact decide_eq_true (lt_byteLength_of_mem_newlines hn)
  have hrest : (newlinesFrom (byteLength xs) ys).filter (· < byteLength xs) = [] := by
    rw [List.filter_eq_nil_iff]
    intro n hn
    have hle := (bounds_of_mem_newlinesFrom hn).1
    simpa using hle
  rw [hfirst, hrest, List.append_nil]

/-- The line around an offset begins after the last line break before it. -/
theorem lineStart_append {above part : List Char} (habove : ∀ c ∈ above.getLast?, c = '\n')
    (hpart : '\n' ∉ part) (rest : List Char) :
    lineStart (above ++ part ++ rest) (byteLength (above ++ part)) = byteLength above := by
  rw [lineStart, filter_newlines_append, newlines_append_of_not_mem above hpart]
  rcases List.eq_nil_or_concat above with rfl | ⟨front, c, rfl⟩
  · rfl
  · rw [List.concat_eq_append] at habove ⊢
    obtain rfl : c = '\n' := habove c List.getLast?_concat
    rw [newlines_concat, List.getLast?_concat, byteLength_append]
    rfl

/-- The line around an offset ends before the next line break. -/
theorem lineStop_append {part below : List Char} (hpart : '\n' ∉ part)
    (hbelow : ∀ c ∈ below.head?, c = '\n') (front : List Char) :
    lineStop (front ++ part ++ below) (byteLength front) = byteLength (front ++ part) := by
  have hfront : (newlines front).find? (byteLength front ≤ ·) = none := by
    rw [List.find?_eq_none]
    intro n hn
    have hlt := lt_byteLength_of_mem_newlines hn
    simpa using hlt
  rw [lineStop, newlines_append, newlines_append_of_not_mem front hpart, List.find?_append, hfront,
    Option.none_or]
  cases below with
  | nil => rw [List.append_nil]; rfl
  | cons c below =>
    obtain rfl : c = '\n' := hbelow c rfl
    have hle : byteLength front ≤ byteLength (front ++ part) := by
      rw [byteLength_append]
      exact Nat.le_add_right ..
    rw [newlinesFrom, if_pos rfl, List.find?_cons, decide_eq_true hle]
    rfl

/-! ### Lines -/

/-- The lines of a text, without their line breaks. -/
def lines (cs : List Char) : List (List Char) := split '\n' cs

/-- The text above a line: the lines before it, each with its line break.  Line zero counts as
line one. -/
def above (cs : List Char) (line : Nat) : List Char :=
  ((lines cs).take (line - 1)).flatMap (· ++ ['\n'])

theorem not_mem_of_mem_split {sep : Char} {cs piece : List Char} (h : piece ∈ split sep cs) :
    sep ∉ piece := by
  induction cs generalizing piece with
  | nil =>
    rw [List.mem_singleton.mp h]
    exact List.not_mem_nil
  | cons c cs ih =>
    rw [split] at h
    split at h
    · rcases List.mem_cons.mp h with rfl | h
      · exact List.not_mem_nil
      · exact ih h
    · next hc =>
      cases hs : split sep cs with
      | nil =>
        rw [hs] at h
        rw [List.mem_singleton.mp h, List.mem_singleton]
        exact Ne.symm hc
      | cons first pieces =>
        rw [hs] at h ih
        rcases List.mem_cons.mp h with rfl | h
        · rw [List.mem_cons, not_or]
          exact ⟨Ne.symm hc, ih List.mem_cons_self⟩
        · exact ih (List.mem_cons_of_mem _ h)

/-- There is one line more than there are line breaks. -/
theorem length_lines (cs : List Char) : (lines cs).length = (newlines cs).length + 1 := by
  suffices h : ∀ base, (split '\n' cs).length = (newlinesFrom base cs).length + 1 from h 0
  induction cs with
  | nil => exact fun _ => rfl
  | cons c cs ih =>
    intro base
    have hrest := ih (base + c.utf8Size)
    rw [split, newlinesFrom]
    split
    · rw [List.length_cons, List.length_cons, hrest]
    · cases hs : split '\n' cs with
      | nil =>
        rw [hs] at hrest
        cases hrest
      | cons first pieces =>
        rw [hs] at hrest
        exact hrest

/-- A text is any of its lines with what is above and below it. -/
theorem intercalate_append_cons (sep : Char) (front : List (List Char)) (piece : List Char)
    (rest : List (List Char)) :
    [sep].intercalate (front ++ piece :: rest) =
      front.flatMap (· ++ [sep]) ++ piece ++ rest.flatMap (sep :: ·) := by
  induction front with
  | nil =>
    rw [List.nil_append, List.flatMap_nil, List.nil_append]
    induction rest generalizing piece with
    | nil => rw [List.intercalate_singleton, List.flatMap_nil, List.append_nil]
    | cons next rest ih =>
      rw [List.intercalate_cons_cons, ih, List.flatMap_cons, List.append_assoc,
        List.singleton_append, List.cons_append]
  | cons first front ih =>
    have hne : front ++ piece :: rest ≠ [] := by simp
    rw [List.cons_append, List.intercalate_cons_of_ne_nil hne, ih, List.flatMap_cons]
    simp only [List.append_assoc]

variable {cs : List Char} {line column : Nat}

/-- A line stands between the text above it and a line break or the end of the text. -/
theorem exists_below {l : List Char} (h : (lines cs)[line - 1]? = some l) :
    '\n' ∉ l ∧ ∃ below, cs = above cs line ++ l ++ below ∧ ∀ c ∈ below.head?, c = '\n' := by
  obtain ⟨hlt, hget⟩ := List.getElem?_eq_some_iff.mp h
  have hsplit : (lines cs).take (line - 1) ++ l :: (lines cs).drop (line - 1 + 1) = lines cs := by
    rw [← hget, List.getElem_cons_drop, List.take_append_drop]
  have htext := intercalate_append_cons '\n' ((lines cs).take (line - 1)) l
    ((lines cs).drop (line - 1 + 1))
  rw [hsplit, lines, split_eq_splitOn, List.intercalate_splitOn, ← split_eq_splitOn] at htext
  refine ⟨not_mem_of_mem_split (List.mem_of_getElem? h), _, htext, ?_⟩
  intro c hc
  cases hrest : (split '\n' cs).drop (line - 1 + 1) with
  | nil =>
    rw [hrest] at hc
    cases hc
  | cons next rest =>
    rw [hrest] at hc
    exact (Option.some.inj hc).symm

theorem getLast?_above (cs : List Char) (line : Nat) :
    ∀ c ∈ (above cs line).getLast?, c = '\n' := by
  intro c h
  unfold above at h
  rcases List.eq_nil_or_concat ((lines cs).take (line - 1)) with hnil | ⟨front, l, hconcat⟩
  · rw [hnil] at h
    cases h
  · rw [hconcat, List.concat_eq_append, List.flatMap_append, List.flatMap_singleton,
      ← List.append_assoc, List.getLast?_concat] at h
    exact (Option.some.inj h).symm

theorem length_newlinesFrom_flatMap (base : Nat) {ls : List (List Char)}
    (h : ∀ l ∈ ls, '\n' ∉ l) :
    (newlinesFrom base (ls.flatMap (· ++ ['\n']))).length = ls.length := by
  induction ls generalizing base with
  | nil => rfl
  | cons l ls ih =>
    obtain ⟨hl, hrest⟩ := List.forall_mem_cons.mp h
    rw [List.flatMap_cons, newlinesFrom_append, newlinesFrom_append, newlinesFrom_eq_nil hl,
      List.length_append, ih _ hrest, List.length_cons, Nat.add_comm]
    rfl

theorem length_newlines_above (h : line - 1 ≤ (lines cs).length) :
    (newlines (above cs line)).length = line - 1 := by
  have hcount := length_newlinesFrom_flatMap 0
    fun l (hl : l ∈ (lines cs).take (line - 1)) => not_mem_of_mem_split (List.mem_of_mem_take hl)
  rwa [List.length_take, Nat.min_eq_left h] at hcount

theorem startOfLine?_sub_add (cs : List Char) (line : Nat) :
    startOfLine? cs (line - 1 + 1) = startOfLine? cs line := by
  cases line with
  | zero => rfl
  | succ row => rfl

/-- A line begins after the text above it. -/
theorem startOfLine?_eq_lines (cs : List Char) (line : Nat) :
    startOfLine? cs line = (lines cs)[line - 1]?.map fun _ => byteLength (above cs line) := by
  rw [← startOfLine?_sub_add]
  cases hl : (lines cs)[line - 1]? with
  | none =>
    have hlen := List.getElem?_eq_none_iff.mp hl
    rw [length_lines] at hlen
    obtain ⟨k, hk⟩ : ∃ k, line - 1 = k + 1 := ⟨line - 2, by omega⟩
    rw [hk, startOfLine?_succ, List.getElem?_eq_none_iff.mpr (by omega)]
    rfl
  | some l =>
    obtain ⟨-, below, htext, -⟩ := exists_below hl
    have hbreaks := length_newlines_above (Nat.le_of_lt (List.getElem?_eq_some_iff.mp hl).1)
    have hstart := lineStart_append (getLast?_above cs line) List.not_mem_nil (l ++ below)
    have hfound := startOfLine?_lineStart (above cs line ++ (l ++ below))
      (byteLength (above cs line))
    rw [List.append_nil] at hstart
    rw [filter_newlines_append, hbreaks, hstart, ← List.append_assoc, ← htext] at hfound
    exact hfound

/-- It ends with its last byte. -/
theorem lineStop_above {l : List Char} (h : (lines cs)[line - 1]? = some l) :
    lineStop cs (byteLength (above cs line)) = byteLength (above cs line) + byteLength l := by
  obtain ⟨hl, below, htext, hbelow⟩ := exists_below h
  have hstop := lineStop_append hl hbelow (above cs line)
  rwa [← htext, byteLength_append] at hstop

/-! ### Positions outside the text -/

/-- There is no such line, or the column is beyond its end.  Line zero and column zero count as
one. -/
def Outside (cs : List Char) (line column : Nat) : Prop :=
  ∀ l ∈ (lines cs)[line - 1]?, byteLength l < column - 1

/-- There is such a line, but its start and the column together are not a size. -/
def Overflows (cs : List Char) (line column : Nat) : Prop :=
  ∃ l ∈ (lines cs)[line - 1]?, Size.bound ≤ byteLength (above cs line) + (column - 1)

theorem offsetAt_of_no_line (h : (lines cs)[line - 1]? = none) :
    offsetAt cs line column = .ok none := by
  rw [offsetAt, startOfLine?_eq_lines, h]
  rfl

theorem offsetAt_of_line {l : List Char} (h : (lines cs)[line - 1]? = some l)
    (hsize : byteLength (above cs line) + (column - 1) < Size.bound) :
    offsetAt cs line column = .ok (if column - 1 ≤ byteLength l then
      some (byteLength (above cs line) + (column - 1)) else none) := by
  rw [offsetAt, startOfLine?_eq_lines, h]
  simp only [Option.map_some, Size.add, if_pos hsize, lineStop_above h]
  show Except.ok _ = _
  simp only [Nat.add_le_add_iff_left]

theorem offsetAt_of_overflows (h : Overflows cs line column) :
    offsetAt cs line column = .error .sumTooLarge := by
  obtain ⟨l, hl, hbound⟩ := h
  rw [Option.mem_def] at hl
  rw [offsetAt, startOfLine?_eq_lines, hl]
  simp only [Option.map_some, Size.add, if_neg (Nat.not_lt.mpr hbound)]
  rfl

/-- In a text whose length is a size, only positions outside of it have no offset. -/
theorem Overflows.outside (h : Overflows cs line column) (hsize : byteLength cs < Size.bound) :
    Outside cs line column := by
  obtain ⟨l, hl, hbound⟩ := h
  intro l' hl'
  obtain rfl : l = l' := Option.mem_unique hl hl'
  obtain ⟨-, below, htext, -⟩ := exists_below hl
  have hlength := congrArg byteLength htext
  simp only [byteLength_append] at hlength
  omega

/-- **A position by line and column is answered unless its start and the column together are not
a size.**  The answer is none just if the position is outside the text, and otherwise the offset.
A sum that is no size is a fault, although the position is outside the text. -/
theorem offsetAt_answers_iff (cs : List Char) (line column : Nat) :
    ((∃ answer, offsetAt cs line column = .ok answer ∧ (answer = none ↔ Outside cs line column) ∧
        ∀ offset ∈ answer, offset = byteLength (above cs line) + (column - 1)) ↔
      ¬ Overflows cs line column) ∧
    (Overflows cs line column → offsetAt cs line column = .error .sumTooLarge ∧
      (byteLength cs < Size.bound → Outside cs line column)) := by
  refine ⟨⟨?_, ?_⟩, fun h => ⟨offsetAt_of_overflows h, h.outside⟩⟩
  · rintro ⟨answer, hanswer, -⟩ h
    rw [offsetAt_of_overflows h] at hanswer
    cases hanswer
  · intro h
    cases hl : (lines cs)[line - 1]? with
    | none =>
      refine ⟨none, offsetAt_of_no_line hl, iff_of_true rfl ?_, fun _ hno => nomatch hno⟩
      intro l hmem
      rw [hl] at hmem
      cases hmem
    | some l =>
      have hsize : byteLength (above cs line) + (column - 1) < Size.bound :=
        Nat.lt_of_not_le fun hbound => h ⟨l, hl, hbound⟩
      have houtside : Outside cs line column ↔ byteLength l < column - 1 := by
        rw [Outside, hl]
        simp
      refine ⟨_, offsetAt_of_line hl hsize, ?_, ?_⟩
      · rw [houtside, ite_eq_right_iff, ← Nat.not_le]
        exact ⟨fun hno hle => Option.some_ne_none _ (hno hle), fun hnot hle => absurd hle hnot⟩
      · intro offset hoffset
        rw [Option.mem_def, Option.ite_none_right_eq_some] at hoffset
        exact (Option.some.inj hoffset.2).symm

/-- **The last column of a second line is answered by a fault**, although it is outside the
text. -/
theorem offsetAt_last_column :
    offsetAt ['a', '\n', 'b'] 2 0xFFFFFFFFFFFFFFFF = .error .sumTooLarge ∧
      Outside ['a', '\n', 'b'] 2 0xFFFFFFFFFFFFFFFF := by
  have hover : Overflows ['a', '\n', 'b'] 2 0xFFFFFFFFFFFFFFFF := ⟨['b'], rfl, by decide⟩
  exact ⟨offsetAt_of_overflows hover, hover.outside (by decide)⟩

/-- The column before it is answered, and so is the last column of the first line. -/
theorem offsetAt_answers_iff_edge :
    let cs := ['a', '\n', 'b']
    Overflows cs 2 0xFFFFFFFFFFFFFFFF ∧ byteLength cs < Size.bound ∧
      Outside cs 2 0xFFFFFFFFFFFFFFFF ∧
      (∃ answer, offsetAt cs 2 0xFFFFFFFFFFFFFFFE = .ok answer) ∧
      ∃ answer, offsetAt cs 1 0xFFFFFFFFFFFFFFFF = .ok answer := by
  intro cs
  have hover : Overflows cs 2 0xFFFFFFFFFFFFFFFF := ⟨['b'], rfl, by decide⟩
  have hbefore : ¬ Overflows cs 2 0xFFFFFFFFFFFFFFFE := by
    rintro ⟨-, -, hbound⟩
    exact absurd hbound (by decide)
  have hfirst : ¬ Overflows cs 1 0xFFFFFFFFFFFFFFFF := by
    rintro ⟨-, -, hbound⟩
    exact absurd hbound (by decide)
  obtain ⟨second, hsecond, -⟩ := (offsetAt_answers_iff cs 2 0xFFFFFFFFFFFFFFFE).1.mpr hbefore
  obtain ⟨first, hanswer, -⟩ := (offsetAt_answers_iff cs 1 0xFFFFFFFFFFFFFFFF).1.mpr hfirst
  exact ⟨hover, by decide, ((offsetAt_answers_iff _ _ _).2 hover).2 (by decide),
    ⟨second, hsecond⟩, first, hanswer⟩

end Text
end NameBinding
