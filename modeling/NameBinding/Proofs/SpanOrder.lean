import NameBinding.Proofs.Positions

/-!
# The order of spans

Points are compared by byte, row and column, and spans by their two points: six numbers in all.
Of the points of one text only the bytes decide, since a byte has one row and one column.  A byte
beyond the end of the text is moved to the end first, and what decides is where it is then.  Rows
and columns are in the same order: a later byte is in no earlier row, and a row counts its columns
from one start.

## Main results

* `Point.compare_ofByte` — points of one text compare as their bytes do.
* `Point.row_ofByte_le`, `Point.compare_column_ofByte` — rows and columns follow the bytes.
* `Span.ofBytes_inj`, `Span.compare_of_ofBytes` — bytes determine and order the spans of a text.
* `Span.compare_ofBytes` — **spans of one text are ordered and told apart by their bytes**, also
  those that reach beyond its end.
-/

namespace NameBinding

/-! ### Lawful comparisons -/

instance : Std.TransOrd Point :=
  inferInstanceAs (Std.TransCmp
    (compareLex (compareOn Point.byte) (compareLex (compareOn Point.row) (compareOn Point.column))))

instance : Std.LawfulEqOrd Point where
  eq_of_compare {p q} h := by
    obtain ⟨byte, row, column⟩ := p
    obtain ⟨byte', row', column'⟩ := q
    have hparts : (compare byte byte').then ((compare row row').then (compare column column')) =
        .eq := h
    simp only [Ordering.then_eq_eq, Std.LawfulEqOrd.compare_eq_iff_eq] at hparts
    obtain ⟨rfl, rfl, rfl⟩ := hparts
    rfl

instance : Std.TransOrd Span :=
  inferInstanceAs (Std.TransCmp (compareLex (compareOn Span.start) (compareOn Span.stop)))

instance : Std.LawfulEqOrd Span where
  eq_of_compare {s t} h := by
    obtain ⟨start, stop⟩ := s
    obtain ⟨start', stop'⟩ := t
    have hparts : (compare start start').then (compare stop stop') = .eq := h
    simp only [Ordering.then_eq_eq, Std.LawfulEqOrd.compare_eq_iff_eq] at hparts
    obtain ⟨rfl, rfl⟩ := hparts
    rfl

/-! ### Points of one text -/

namespace Point

variable {source : String} {a b : Nat}

/-- A byte determines the point of a text. -/
theorem ofByte_eq (h : (ofByte source a).byte = (ofByte source b).byte) :
    ofByte source a = ofByte source b := by
  simp only [ofByte] at h ⊢
  rw [h]

/-- **Points of one text compare as their bytes do**: rows and columns never decide. -/
theorem compare_ofByte (source : String) (a b : Nat) :
    compare (ofByte source a) (ofByte source b) =
      compare (ofByte source a).byte (ofByte source b).byte := by
  cases hc : compare (ofByte source a).byte (ofByte source b).byte with
  | lt | gt =>
    show (compare (ofByte source a).byte (ofByte source b).byte).then _ = _
    rw [hc]
    rfl
  | eq => rw [ofByte_eq (Nat.compare_eq_eq.mp hc), Std.ReflOrd.compare_self]

/-- A point is found again at its own byte. -/
theorem ofByte_byte (source : String) (a : Nat) :
    ofByte source (ofByte source a).byte = ofByte source a :=
  ofByte_eq (Nat.min_eq_left (Nat.min_le_right ..))

/-- A point lies in the line of its row, its column after the start of the line. -/
theorem exists_inLine_ofByte (source : String) (a : Nat) :
    ∃ start, Text.InLine source.toList (ofByte source a).row start (ofByte source a).byte ∧
      start + (ofByte source a).column = (ofByte source a).byte :=
  (Text.ofByte_eq_iff (Nat.min_le_right ..)).mp (ofByte_byte source a)

theorem row_ofByte_le (h : (ofByte source a).byte ≤ (ofByte source b).byte) :
    (ofByte source a).row ≤ (ofByte source b).row := by
  obtain ⟨_, ha, -⟩ := exists_inLine_ofByte source a
  obtain ⟨_, hb, -⟩ := exists_inLine_ofByte source b
  exact hb.row_le ha h

/-- In one row, columns compare as bytes do: both are counted from the start of the line. -/
theorem compare_column_ofByte (h : (ofByte source a).row = (ofByte source b).row) :
    compare (ofByte source a).column (ofByte source b).column =
      compare (ofByte source a).byte (ofByte source b).byte := by
  obtain ⟨start, ha, hsum⟩ := exists_inLine_ofByte source a
  obtain ⟨start', hb, hsum'⟩ := exists_inLine_ofByte source b
  obtain rfl : start = start' := by
    have hstart := ha.start_eq
    rw [h, hb.start_eq] at hstart
    exact (Option.some.inj hstart).symm
  rw [← hsum, ← hsum', Nat.compare_eq_ite_lt, Nat.compare_eq_ite_lt]
  simp only [Nat.add_lt_add_iff_left]

end Point

/-! ### Spans of one text -/

namespace Span

variable {source : String} {a b a' b' : Nat} {s t : Span}

theorem ofBytes_eq_ok (h : ofBytes source a b = .ok s) :
    s = ⟨.ofByte source a, .ofByte source b⟩ ∧ s.start.byte ≤ s.stop.byte := by
  unfold ofBytes make at h
  split at h
  · next hle =>
    cases h
    exact ⟨rfl, hle⟩
  · cases h

theorem ofBytes_of_le (h : a ≤ b) :
    ofBytes source a b = .ok ⟨.ofByte source a, .ofByte source b⟩ := by
  have hbytes : (Point.ofByte source a).byte ≤ (Point.ofByte source b).byte := by
    simp only [Point.ofByte]
    omega
  exact if_pos hbytes

/-- Bytes determine the spans of a text. -/
theorem ofBytes_inj (hs : ofBytes source a b = .ok s) (ht : ofBytes source a' b' = .ok t)
    (hstart : s.start.byte = t.start.byte) (hstop : s.stop.byte = t.stop.byte) : s = t := by
  obtain ⟨rfl, -⟩ := ofBytes_eq_ok hs
  obtain ⟨rfl, -⟩ := ofBytes_eq_ok ht
  rw [Point.ofByte_eq hstart, Point.ofByte_eq hstop]

/-- Bytes order the spans of a text. -/
theorem compare_of_ofBytes (hs : ofBytes source a b = .ok s) (ht : ofBytes source a' b' = .ok t) :
    compare s t =
      (compare s.start.byte t.start.byte).then (compare s.stop.byte t.stop.byte) := by
  obtain ⟨rfl, -⟩ := ofBytes_eq_ok hs
  obtain ⟨rfl, -⟩ := ofBytes_eq_ok ht
  rw [← Point.compare_ofByte, ← Point.compare_ofByte]
  rfl

/-- **Spans of one text are ordered and told apart by their bytes**, each moved to the end of the
text if it lies beyond.  They compare as the bytes of their starts do, then as those of their
ends, and two of them are the same if and only if these bytes are.  A point with a greater byte
has no lesser row, and in one row columns compare as bytes do. -/
theorem compare_ofBytes (source : String) :
    (∀ a b a' b', a ≤ b → a' ≤ b' →
      let clamp := fun byte => min byte (Text.byteLength source.toList)
      ∃ s t, ofBytes source a b = .ok s ∧ ofBytes source a' b' = .ok t ∧
        compare s t = (compare (clamp a) (clamp a')).then (compare (clamp b) (clamp b')) ∧
        (s = t ↔ clamp a = clamp a' ∧ clamp b = clamp b')) ∧
    ∀ m n,
      let p := Point.ofByte source m
      let q := Point.ofByte source n
      (p.byte ≤ q.byte → p.row ≤ q.row) ∧
        (p.row = q.row → compare p.column q.column = compare p.byte q.byte) := by
  refine ⟨?_, fun m n => ⟨Point.row_ofByte_le, Point.compare_column_ofByte⟩⟩
  intro a b a' b' h h' clamp
  have hs : ofBytes source a b = _ := ofBytes_of_le h
  have ht : ofBytes source a' b' = _ := ofBytes_of_le h'
  refine ⟨_, _, hs, ht, compare_of_ofBytes hs ht, ?_, ?_⟩
  · intro heq
    exact ⟨congrArg (·.start.byte) heq, congrArg (·.stop.byte) heq⟩
  · rintro ⟨hstart, hstop⟩
    exact ofBytes_inj hs ht hstart hstop

/-- Ends beyond the text are the same, and an end in the text comes before them.  In the second
row columns begin again. -/
theorem compare_ofBytes_beyond :
    let source := "é\nx"
    1 ≤ 9 ∧ 1 ≤ 100 ∧ 1 ≤ 3 ∧
      (∃ s, ofBytes source 1 9 = .ok s ∧ ofBytes source 1 100 = .ok s) ∧
      (∃ s t, ofBytes source 1 3 = .ok s ∧ ofBytes source 1 9 = .ok t ∧ compare s t = .lt) ∧
      (Point.ofByte source 2).byte ≤ (Point.ofByte source 3).byte ∧
      (Point.ofByte source 2).row ≤ (Point.ofByte source 3).row ∧
      (Point.ofByte source 3).row = (Point.ofByte source 9).row ∧
      compare (Point.ofByte source 3).column (Point.ofByte source 9).column = .lt := by
  intro source
  obtain ⟨hspans, hpoints⟩ := compare_ofBytes source
  obtain ⟨s, t, hs, ht, -, hsame⟩ := hspans 1 9 1 100 (by decide) (by decide)
  obtain rfl : s = t := hsame.mpr (by decide)
  obtain ⟨s', t', hs', ht', hless, -⟩ := hspans 1 3 1 9 (by decide) (by decide)
  have hbyte : (Point.ofByte source 2).byte ≤ (Point.ofByte source 3).byte := by decide
  have hrow : (Point.ofByte source 3).row = (Point.ofByte source 9).row := by decide
  have hcolumn := (hpoints 3 9).2 hrow
  exact ⟨by decide, by decide, by decide, ⟨s, hs, ht⟩, ⟨s', t', hs', ht', hless.trans (by decide)⟩,
    hbyte, (hpoints 2 3).1 hbyte, hrow, hcolumn.trans (by decide)⟩

end Span
end NameBinding
