import NameBinding.Outline.Context
import NameBinding.Proofs.Lines

/-!
# What a context shows

The context of a span is cut from the source at four byte offsets: where the line of its start
begins, its own two offsets, and where the line of its end stops.  Offsets that are not in the
source are moved into it first, so every span has a context.  If the two offsets do not cut a
character, then the context is the text from the one line to the other, without the blanks around
it, and the text of the span stands between the marks.

## Main definitions

* `Text.IsBoundary` — an offset between two characters.
* `Text.OnLines` — the three parts of a context, as parts of whole lines.
* `Span.fenced` — the three parts, with the marks between them.

## Main results

* `Text.slice?_eq_some_iff` — a slice is a part of the text.
* `Text.trimmed_slices` — the outer parts of every context are trimmed parts of one line.
* `Text.exists_onLines` — between characters, the parts of a context make up whole lines.
* `Span.context_shows_lines` — **every span has a context, and one between characters of the
  source shows its lines.**
-/

namespace NameBinding
namespace Text

variable {cs part : List Char} {start stop : Nat}

/-! ### Slices -/

theorem exists_byteLength_cons (c : Char) (cs : List Char) : ∃ n, byteLength (c :: cs) = n + 1 := by
  have hpos := c.utf8Size_pos
  refine ⟨byteLength (c :: cs) - 1, ?_⟩
  rw [byteLength]
  omega

theorem dropBytes?_append (xs ys : List Char) :
    dropBytes? (xs ++ ys) (byteLength xs) = some ys := by
  induction xs with
  | nil => rw [List.nil_append, byteLength, dropBytes?]
  | cons x xs ih =>
    obtain ⟨n, hn⟩ := exists_byteLength_cons x xs
    rw [List.cons_append, hn, dropBytes?, ← hn, byteLength, if_pos (Nat.le_add_right ..),
      Nat.add_sub_cancel_left, ih]

theorem takeBytes?_append (xs ys : List Char) :
    takeBytes? (xs ++ ys) (byteLength xs) = some xs := by
  induction xs with
  | nil => rw [List.nil_append, byteLength, takeBytes?]
  | cons x xs ih =>
    obtain ⟨n, hn⟩ := exists_byteLength_cons x xs
    rw [List.cons_append, hn, takeBytes?, ← hn, byteLength, if_pos (Nat.le_add_right ..),
      Nat.add_sub_cancel_left, ih]
    rfl

theorem eq_append_of_dropBytes? {n : Nat} {rest : List Char} (h : dropBytes? cs n = some rest) :
    ∃ front, cs = front ++ rest ∧ byteLength front = n := by
  fun_induction dropBytes? cs n with
  | case1 cs => exact ⟨[], (Option.some.inj h), rfl⟩
  | case2 n => cases h
  | case3 c cs n hle ih =>
    obtain ⟨front, rfl, hlength⟩ := ih h
    exact ⟨c :: front, rfl, by rw [byteLength, hlength]; omega⟩
  | case4 => cases h

theorem eq_append_of_takeBytes? {n : Nat} {front : List Char} (h : takeBytes? cs n = some front) :
    ∃ rest, cs = front ++ rest ∧ byteLength front = n := by
  fun_induction takeBytes? cs n generalizing front with
  | case1 cs =>
    obtain rfl := Option.some.inj h
    exact ⟨cs, rfl, rfl⟩
  | case2 n => cases h
  | case3 c cs n hle ih =>
    obtain ⟨front, hfront, rfl⟩ := Option.map_eq_some_iff.mp h
    obtain ⟨rest, rfl, hlength⟩ := ih hfront
    exact ⟨rest, rfl, by rw [byteLength, hlength]; omega⟩
  | case4 => cases h

/-- A slice is the part of the text between two characters. -/
theorem slice?_eq_some_iff : slice? cs start stop = some part ↔
    ∃ front rest, cs = front ++ part ++ rest ∧ byteLength front = start ∧
      byteLength (front ++ part) = stop := by
  unfold slice?
  constructor
  · intro h
    rw [Option.ite_none_right_eq_some] at h
    obtain ⟨hle, h⟩ := h
    obtain ⟨tail, hdrop, htake⟩ := Option.bind_eq_some_iff.mp h
    obtain ⟨front, rfl, hfront⟩ := eq_append_of_dropBytes? hdrop
    obtain ⟨rest, rfl, hpart⟩ := eq_append_of_takeBytes? htake
    exact ⟨front, rest, by rw [List.append_assoc], hfront, by rw [byteLength_append]; omega⟩
  · rintro ⟨front, rest, rfl, rfl, rfl⟩
    rw [byteLength_append, if_pos (Nat.le_add_right ..), Nat.add_sub_cancel_left, List.append_assoc,
      dropBytes?_append, Option.bind_some, takeBytes?_append]

/-! ### Offsets between characters -/

/-- The offset does not cut a character. -/
def IsBoundary (cs : List Char) (offset : Nat) : Prop :=
  ∃ front rest, cs = front ++ rest ∧ byteLength front = offset

theorem eq_nil_of_byteLength_eq_zero (h : byteLength cs = 0) : cs = [] := by
  cases cs with
  | nil => rfl
  | cons c cs =>
    obtain ⟨n, hn⟩ := exists_byteLength_cons c cs
    omega

/-- Two offsets between characters cut the text into three. -/
theorem IsBoundary.exists_part (hstart : IsBoundary cs start) (hstop : IsBoundary cs stop)
    (hle : start ≤ stop) : ∃ part, slice? cs start stop = some part := by
  obtain ⟨front, rest, rfl, rfl⟩ := hstart
  obtain ⟨front', rest', heq, rfl⟩ := hstop
  rcases List.append_eq_append_iff.mp heq with ⟨part, rfl, rfl⟩ | ⟨part, rfl, rfl⟩
  · exact ⟨part, slice?_eq_some_iff.mpr ⟨front, rest', by rw [List.append_assoc], rfl, rfl⟩⟩
  · -- the second offset is not before the first one, so nothing lies between them
    have hpart : byteLength part = 0 := by
      rw [byteLength_append] at hle
      omega
    obtain rfl := eq_nil_of_byteLength_eq_zero hpart
    exact ⟨[], slice?_eq_some_iff.mpr ⟨front', rest, by simp, by simp, by simp⟩⟩

/-! ### The parts of a line -/

/-- A line break in a slice stands between the two offsets. -/
theorem exists_newline_of_slice? (h : slice? cs start stop = some part) (hmem : '\n' ∈ part) :
    ∃ n ∈ newlines cs, start ≤ n ∧ n < stop := by
  obtain ⟨front, rest, rfl, rfl, rfl⟩ := slice?_eq_some_iff.mp h
  obtain ⟨xs, ys, rfl⟩ := List.append_of_mem hmem
  have hpos := Char.utf8Size_pos '\n'
  have hbreak : byteLength (front ++ xs) ∈ newlines (front ++ xs ++ '\n' :: (ys ++ rest)) := by
    rw [newlines_append, newlinesFrom, if_pos rfl]
    exact List.mem_append_right _ List.mem_cons_self
  refine ⟨byteLength (front ++ xs), ?_, ?_, ?_⟩
  · simpa using hbreak
  · rw [byteLength_append]
    omega
  · simp only [byteLength_append, byteLength]
    omega

/-- There is no line break between the start of a line and an offset in it. -/
theorem not_mem_of_slice?_lineStart (h : slice? cs (lineStart cs start) start = some part) :
    '\n' ∉ part := by
  intro hmem
  obtain ⟨n, hn, hle, hlt⟩ := exists_newline_of_slice? h hmem
  have := lt_lineStart hn hlt
  omega

/-- There is none between an offset and the end of its line either. -/
theorem not_mem_of_slice?_lineStop (h : slice? cs stop (lineStop cs stop) = some part) :
    '\n' ∉ part := by
  intro hmem
  obtain ⟨n, hn, hle, hlt⟩ := exists_newline_of_slice? h hmem
  have := lineStop_le hn hle
  omega

theorem le_lineStop (h : stop ≤ byteLength cs) : stop ≤ lineStop cs stop := by
  rcases lineStop_cases cs stop with ⟨-, hle⟩ | heq
  · exact hle
  · rw [heq]
    exact h

/-- A text begins with the rest of a line. -/
theorem exists_first_line (cs : List Char) :
    ∃ part below, cs = part ++ below ∧ '\n' ∉ part ∧ ∀ c ∈ below.head?, c = '\n' := by
  refine ⟨cs.takeWhile (· != '\n'), cs.dropWhile (· != '\n'),
    List.takeWhile_append_dropWhile.symm, fun hmem => ?_, fun c hc => ?_⟩
  · have hne := List.all_eq_true.mp List.all_takeWhile '\n' hmem
    simp at hne
  · have hnot := List.head?_dropWhile_not (· != '\n') cs
    rw [Option.mem_def] at hc
    rw [hc] at hnot
    simpa using hnot

/-- It ends with the front of a line. -/
theorem exists_last_line (cs : List Char) :
    ∃ above part, cs = above ++ part ∧ '\n' ∉ part ∧ ∀ c ∈ above.getLast?, c = '\n' := by
  obtain ⟨part, below, htext, hpart, hbelow⟩ := exists_first_line cs.reverse
  refine ⟨below.reverse, part.reverse, ?_, by simpa using hpart, by simpa using hbelow⟩
  rw [← List.reverse_append, ← htext, List.reverse_reverse]

/-! ### Blanks -/

theorem exists_blanks_trimStart (cs : List Char) :
    ∃ blanks, cs = blanks ++ trimStart cs ∧ ∀ c ∈ blanks, isBlank c = true :=
  ⟨cs.takeWhile isBlank, List.takeWhile_append_dropWhile.symm,
    List.all_eq_true.mp List.all_takeWhile⟩

theorem head?_trimStart (cs : List Char) : ∀ c ∈ (trimStart cs).head?, isBlank c = false := by
  intro c hc
  have hnot := List.head?_dropWhile_not isBlank cs
  rw [Option.mem_def, trimStart] at hc
  rwa [hc] at hnot

theorem trimEnd_eq_reverse (cs : List Char) : trimEnd cs = (trimStart cs.reverse).reverse := rfl

theorem exists_blanks_trimEnd (cs : List Char) :
    ∃ blanks, cs = trimEnd cs ++ blanks ∧ ∀ c ∈ blanks, isBlank c = true := by
  obtain ⟨blanks, htext, hblank⟩ := exists_blanks_trimStart cs.reverse
  refine ⟨blanks.reverse, ?_, by simpa using hblank⟩
  rw [trimEnd_eq_reverse, ← List.reverse_append, ← htext, List.reverse_reverse]

theorem getLast?_trimEnd (cs : List Char) : ∀ c ∈ (trimEnd cs).getLast?, isBlank c = false := by
  rw [trimEnd_eq_reverse, List.getLast?_reverse]
  exact head?_trimStart cs.reverse

/-! ### Contexts -/

/-- The parts of a context before and after the span: without line breaks, and without blanks at
the outer ends. -/
structure Trimmed (before after : List Char) : Prop where
  before_line : '\n' ∉ before
  after_line : '\n' ∉ after
  head : ∀ c ∈ before.head?, isBlank c = false
  last : ∀ c ∈ after.getLast?, isBlank c = false

/-- The text between the offsets `start` and `stop`, and around it what stands on their lines up to
blanks at the outer ends: `above` and `below` are the other lines. -/
structure OnLines (cs : List Char) (start stop : Nat) (before text after : List Char)
    (above leading trailing below : List Char) : Prop where
  text_eq : cs = above ++ (leading ++ before ++ text ++ after ++ trailing) ++ below
  start_eq : byteLength (above ++ leading ++ before) = start
  stop_eq : byteLength (above ++ leading ++ before ++ text) = stop
  leading_blank : ∀ c ∈ leading, isBlank c = true
  trailing_blank : ∀ c ∈ trailing, isBlank c = true
  start_line : '\n' ∉ leading ++ before
  stop_line : '\n' ∉ after ++ trailing
  above_ends : ∀ c ∈ above.getLast?, c = '\n'
  below_starts : ∀ c ∈ below.head?, c = '\n'

end Text

namespace Span

/-- Where a span begins in a text of `length` bytes: an offset beyond its end is moved there. -/
def startIn (s : Span) (length : Nat) : Nat := min s.start.byte length

/-- Where it ends, which is not before its start. -/
def stopIn (s : Span) (length : Nat) : Nat := max (s.startIn length) (min s.stop.byte length)

theorem startIn_le_stopIn (s : Span) (length : Nat) : s.startIn length ≤ s.stopIn length :=
  Nat.le_max_left ..

theorem stopIn_le (s : Span) (length : Nat) : s.stopIn length ≤ length :=
  Nat.max_le.mpr ⟨Nat.min_le_right .., Nat.min_le_right ..⟩

theorem startIn_eq {s : Span} {length : Nat} (h : s.start.byte ≤ s.stop.byte)
    (hstop : s.stop.byte ≤ length) : s.startIn length = s.start.byte :=
  Nat.min_eq_left (Nat.le_trans h hstop)

theorem stopIn_eq {s : Span} {length : Nat} (h : s.start.byte ≤ s.stop.byte)
    (hstop : s.stop.byte ≤ length) : s.stopIn length = s.stop.byte := by
  rw [stopIn, startIn_eq h hstop, Nat.min_eq_left hstop, Nat.max_eq_right h]

/-- The parts of a context with the marks between them. -/
def fenced (before text after : List Char) : String :=
  String.ofList (before ++ fence ++ text ++ fence ++ after)

theorem context_eq_fenced (s : Span) (source : String) :
    let cs := source.toList
    let start := s.startIn (Text.byteLength cs)
    let stop := s.stopIn (Text.byteLength cs)
    s.context source = fenced
      (Text.trimStart ((Text.slice? cs (Text.lineStart cs start) start).getD []))
      ((Text.slice? cs start stop).getD [])
      (Text.trimEnd ((Text.slice? cs stop (Text.lineStop cs stop)).getD [])) := rfl

end Span

namespace Text

/-- What stands before an offset on its line. -/
theorem slice?_lineStart {above : List Char} (habove : ∀ c ∈ above.getLast?, c = '\n')
    (hpart : '\n' ∉ part) (rest : List Char) :
    slice? (above ++ part ++ rest) (lineStart (above ++ part ++ rest) (byteLength (above ++ part)))
      (byteLength (above ++ part)) = some part := by
  rw [lineStart_append habove hpart]
  exact slice?_eq_some_iff.mpr ⟨above, rest, rfl, rfl, rfl⟩

/-- What stands after an offset on its line. -/
theorem slice?_lineStop {below : List Char} (hpart : '\n' ∉ part)
    (hbelow : ∀ c ∈ below.head?, c = '\n') (front : List Char) :
    slice? (front ++ part ++ below) (byteLength front)
      (lineStop (front ++ part ++ below) (byteLength front)) = some part := by
  rw [lineStop_append hpart hbelow]
  exact slice?_eq_some_iff.mpr ⟨front, below, rfl, rfl, rfl⟩

theorem not_mem_getD {found : Option (List Char)} (h : ∀ part ∈ found, '\n' ∉ part) :
    '\n' ∉ found.getD [] := by
  cases found with
  | none => exact List.not_mem_nil
  | some part => exact h part rfl

theorem trimStart_sublist (cs : List Char) : (trimStart cs).Sublist cs :=
  List.dropWhile_sublist isBlank

theorem trimEnd_sublist (cs : List Char) : (trimEnd cs).Sublist cs := by
  rw [trimEnd_eq_reverse, ← List.reverse_sublist, List.reverse_reverse]
  exact trimStart_sublist cs.reverse

/-- Whatever the offsets are, the outer parts of a context are trimmed. -/
theorem trimmed_slices (cs : List Char) (start stop : Nat) : Trimmed
    (trimStart ((slice? cs (lineStart cs start) start).getD []))
    (trimEnd ((slice? cs stop (lineStop cs stop)).getD [])) where
  before_line := fun h =>
    not_mem_getD (fun _ => not_mem_of_slice?_lineStart) ((trimStart_sublist _).mem h)
  after_line := fun h =>
    not_mem_getD (fun _ => not_mem_of_slice?_lineStop) ((trimEnd_sublist _).mem h)
  head := head?_trimStart _
  last := getLast?_trimEnd _

/-- Between characters, the three parts of a context make up whole lines. -/
theorem exists_onLines (hstart : IsBoundary cs start) (hstop : IsBoundary cs stop)
    (hle : start ≤ stop) : ∃ above leading trailing below, OnLines cs start stop
      (trimStart ((slice? cs (lineStart cs start) start).getD []))
      ((slice? cs start stop).getD [])
      (trimEnd ((slice? cs stop (lineStop cs stop)).getD [])) above leading trailing below := by
  obtain ⟨text, htext⟩ := hstart.exists_part hstop hle
  obtain ⟨front, rest, rfl, rfl, rfl⟩ := slice?_eq_some_iff.mp htext
  obtain ⟨above, before, rfl, hbefore, habove⟩ := exists_last_line front
  obtain ⟨after, below, rfl, hafter, hbelow⟩ := exists_first_line rest
  have hfirst := slice?_lineStart habove hbefore (text ++ (after ++ below))
  have hlast := slice?_lineStop hafter hbelow (above ++ before ++ text)
  rw [← List.append_assoc] at hfirst
  rw [List.append_assoc _ after] at hlast
  obtain ⟨leading, hleading, hblank⟩ := exists_blanks_trimStart before
  obtain ⟨trailing, htrailing, hblank'⟩ := exists_blanks_trimEnd after
  rw [htext, hfirst, hlast]
  simp only [Option.getD_some]
  refine ⟨above, leading, trailing, below, ?_, ?_, ?_, hblank, hblank', ?_, ?_, habove, hbelow⟩
  · rw [← hleading, List.append_assoc _ (trimEnd after), ← htrailing]
    simp only [List.append_assoc]
  · rw [List.append_assoc, ← hleading]
  · rw [List.append_assoc above leading, ← hleading]
  · rwa [← hleading]
  · rwa [← htrailing]

end Text

/-- **Every span has a context, and one between characters of the source shows its lines.**  Its
offsets are moved into the source if need be, so that all four cuts lie in the source and in order.
What stands before and after the marks has no line break and no blank at the outer end; and if no
character is cut, the three parts of the context are, up to blanks at the outer ends, the source
from the start of the line that holds the start of the span to the end of the line that holds its
end. -/
theorem Span.context_shows_lines (source : String) (s : Span) :
    let cs := source.toList
    let start := s.startIn (Text.byteLength cs)
    let stop := s.stopIn (Text.byteLength cs)
    (Text.lineStart cs start ≤ start ∧ start ≤ stop ∧ stop ≤ Text.lineStop cs stop ∧
      Text.lineStop cs stop ≤ Text.byteLength cs) ∧
    (s.start.byte ≤ s.stop.byte → s.stop.byte ≤ Text.byteLength cs →
      start = s.start.byte ∧ stop = s.stop.byte) ∧
    ∃ before text after, s.context source = fenced before text after ∧ Text.Trimmed before after ∧
      (Text.IsBoundary cs start → Text.IsBoundary cs stop →
        ∃ above leading trailing below,
          Text.OnLines cs start stop before text after above leading trailing below) := by
  intro cs start stop
  have hle := s.startIn_le_stopIn (Text.byteLength cs)
  refine ⟨⟨Text.lineStart_le cs start, hle, Text.le_lineStop (s.stopIn_le _),
    Text.lineStop_le_byteLength cs stop⟩, fun h hstop => ⟨startIn_eq h hstop, stopIn_eq h hstop⟩,
    _, _, _, s.context_eq_fenced source, Text.trimmed_slices .., fun hstart hstop => ?_⟩
  exact Text.exists_onLines hstart hstop hle

/-- A span over two lines, with blanks before the first and after the second of them. -/
theorem Span.context_shows_lines_indented :
    let source := "a\n  fn é (\n)\t\nb"
    let s : Span := ⟨⟨7, 1, 5⟩, ⟨13, 2, 1⟩⟩
    s.start.byte ≤ s.stop.byte ∧ s.stop.byte ≤ Text.byteLength source.toList ∧
      Text.IsBoundary source.toList 7 ∧ Text.IsBoundary source.toList 13 ∧
      s.context source = "fn §é (\n)§" ∧
      ∃ before text after above leading trailing below,
        Text.OnLines source.toList 7 13 before text after above leading trailing below := by
  intro source s
  have hchars : source.toList = ['a', '\n', ' ', ' ', 'f', 'n', ' '] ++
      ['é', ' ', '(', '\n', ')'] ++ ['\t', '\n', 'b'] := by decide
  have hstart : Text.IsBoundary source.toList 7 := ⟨_, _, hchars.trans (List.append_assoc ..), rfl⟩
  have hstop : Text.IsBoundary source.toList 13 := ⟨_, _, hchars, rfl⟩
  have hin : s.stop.byte ≤ Text.byteLength source.toList := by decide
  obtain ⟨-, hoffsets, before, text, after, -, -, hlines⟩ := context_shows_lines source s
  obtain ⟨hstartIn, hstopIn⟩ := hoffsets (by decide) hin
  rw [hstartIn, hstopIn] at hlines
  obtain ⟨above, leading, trailing, below, honLines⟩ := hlines hstart hstop
  exact ⟨by decide, hin, hstart, hstop, by decide +kernel, before, text, after, above, leading,
    trailing, below, honLines⟩

end NameBinding
