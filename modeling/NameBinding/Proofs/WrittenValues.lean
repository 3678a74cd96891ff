import NameBinding.Proofs.Quoting
import NameBinding.Toml.Parser

/-!
# Written values and keys are read back

The reader of values looks at the first character to see what comes, and stops where the
value ends.  A written value starts with a character that is taken neither for a blank
nor for the end of an array, and a comma, a bracket or a line break follows it.

## Main definitions

* `Delimited` — what may follow a written value.
* `Reads` — a reader takes a written value for the value that was written.

## Main results

* `reads_string`, `reads_array`, `reads_integer` — **texts, arrays and numbers.**
* `keyPath_pair`, `keyPath_header` — **keys**, alone in a line or in a header.
-/

namespace NameBinding
namespace Toml

/-- What may follow a written value. -/
def Delimited (rest : List Char) : Prop :=
  ∃ c tail, rest = c :: tail ∧ (c = ',' ∨ c = ']' ∨ c = '\n')

theorem Delimited.noQuote {rest : List Char} (h : Delimited rest) : NoQuote rest := by
  obtain ⟨c, tail, rfl, rfl | rfl | rfl⟩ := h <;> exact ⟨by simp, by simp⟩

theorem delimited_comma (rest : List Char) : Delimited (',' :: rest) := ⟨_, _, rfl, by simp⟩

theorem delimited_bracket (rest : List Char) : Delimited (']' :: rest) := ⟨_, _, rfl, by simp⟩

theorem delimited_newline (rest : List Char) : Delimited ('\n' :: rest) := ⟨_, _, rfl, by simp⟩

/-- The text starts with a character that is not passed over and does not end an array. -/
def Starts (text : List Char) : Prop :=
  ∃ c tail, text = c :: tail ∧ c ∉ [' ', '\t', '\n', '\r', '#', ']']

/-- The reader takes the written value for the value. -/
structure Reads (read : Reader Toml) (text : List Char) (v : Toml) : Prop where
  starts : Starts text
  read : ∀ rest, Delimited rest → read (text ++ rest) = some (v, rest)

/-! ### Blanks -/

theorem skipVoid_of_starts {text : List Char} (h : Starts text) (rest : List Char) :
    skipVoid false (text ++ rest) = some (text ++ rest) := by
  obtain ⟨c, tail, rfl, hc⟩ := h
  simp only [List.mem_cons, List.not_mem_nil, or_false, not_or] at hc
  rw [List.cons_append, skipVoid]
  · simp [hc, isSpace]
  · intro rest' hr
    exact absurd hr hc.2.2.2.1

theorem skipSpace_of_starts {text : List Char} (h : Starts text) (rest : List Char) :
    skipSpace (text ++ rest) = text ++ rest := by
  obtain ⟨c, tail, rfl, hc⟩ := h
  simp only [List.mem_cons, List.not_mem_nil, or_false, not_or] at hc
  rw [List.cons_append, skipSpace, List.dropWhile_cons_of_neg]
  simp [isSpace, hc]

/-! ### Texts -/

theorem write_starts (cs : List Char) (q : Quoting) :
    ∃ tail, q.write cs = '"' :: tail ∨ q.write cs = '\x27' :: tail := by
  cases q with
  | basic => exact ⟨_, Or.inl rfl⟩
  | literal => exact ⟨_, Or.inr rfl⟩
  | multilineBasic => exact ⟨_, Or.inl rfl⟩
  | multilineLiteral => exact ⟨_, Or.inr rfl⟩

theorem value_of_quote (depth : Nat) {cs : List Char}
    (h : ∃ tail, cs = '"' :: tail ∨ cs = '\x27' :: tail) :
    value depth cs = (quoted cs).map fun (t, r) => (.string t, r) := by
  obtain ⟨tail, rfl | rfl⟩ := h <;> rw [value]

/-- **A written text is read back.** -/
theorem reads_string (depth : Nat) (s : String) :
    Reads (value depth) (stringText s).toList (.string s) := by
  rw [stringText, String.toList_ofList]
  obtain ⟨tail, hstart⟩ := write_starts s.toList (Quoting.ofText s.toList)
  constructor
  · rcases hstart with h | h
    · exact ⟨'"', tail, h, by simp⟩
    · exact ⟨'\x27', tail, h, by simp⟩
  · intro rest hrest
    have hread := quoted_write (Quoting.suits_ofText s.toList) hrest.noQuote
    rw [String.ofList_toList] at hread
    rw [value_of_quote, hread]
    · rfl
    · rcases hstart with h | h
      · exact ⟨tail ++ rest, Or.inl (by rw [h]; rfl)⟩
      · exact ⟨tail ++ rest, Or.inr (by rw [h]; rfl)⟩

/-! ### Arrays -/

section Arrays

variable {item : Reader Toml} {text : List Char} {v : Toml}

/-- One item of an array: what follows it decides how the reader goes on. -/
theorem arrayRest_item (h : Reads item text v) {cs rest : List Char} (n : Nat)
    (hrest : Delimited rest) (hskip : skipVoid false cs = some (text ++ rest)) :
    arrayRest item (n + 1) cs = (do
      match ← skipVoid false rest with
      | ',' :: rest => do
          let (vs, rest) ← arrayRest item n rest
          return (v :: vs, rest)
      | ']' :: rest => return ([v], rest)
      | _ => none) := by
  have hread := h.read rest hrest
  obtain ⟨c, tail, rfl, hc⟩ := h.starts
  rw [arrayRest, hskip, Option.bind_eq_bind, Option.bind_some]
  -- an item does not start with the bracket that ends the array
  split
  · next heq =>
    cases heq
    simp at hc
  · rw [hread]
    rfl

theorem arrayRest_comma (h : Reads item text v) {cs rest : List Char} (n : Nat)
    (hskip : skipVoid false cs = some (text ++ ',' :: rest)) :
    arrayRest item (n + 1) cs = (arrayRest item n rest).map fun (vs, r) => (v :: vs, r) := by
  rw [arrayRest_item h n (delimited_comma rest) hskip, Option.map_eq_bind]
  rfl

theorem arrayRest_last (h : Reads item text v) {cs rest : List Char} (n : Nat)
    (hskip : skipVoid false cs = some (text ++ ']' :: rest)) :
    arrayRest item (n + 1) cs = some ([v], rest) :=
  arrayRest_item h n (delimited_bracket rest) hskip

end Arrays

section Lists

variable {α : Type} {text : α → String} {val : α → Toml}

/-- The line of an item of an array. -/
def itemLine (text : String) : List Char :=
  ' ' :: ' ' :: ' ' :: ' ' :: (text.toList ++ [',', '\n'])

theorem length_le_flatMap_itemLine (as : List α) :
    as.length ≤ (as.flatMap fun a => itemLine (text a)).length := by
  induction as with
  | nil => exact Nat.le_refl _
  | cons a as ih =>
    have hline : 0 < (itemLine (text a)).length := by simp [itemLine]
    simp only [List.flatMap_cons, List.length_append, List.length_cons]
    omega

/-- The lines of the items of an array, up to the bracket. -/
theorem arrayRest_lines {item : Reader Toml} (rest : List Char) :
    ∀ (as : List α) (n : Nat), as.length < n → (∀ a ∈ as, Reads item (text a).toList (val a)) →
      arrayRest item n ('\n' :: ((as.flatMap fun a => itemLine (text a)) ++ ']' :: rest)) =
        some (as.map val, rest) := by
  intro as
  induction as with
  | nil =>
    intro n hn _
    obtain ⟨n, rfl⟩ : ∃ m, n = m + 1 := ⟨n - 1, by simp at hn; omega⟩
    rfl
  | cons a as ih =>
    intro n hn hreads
    obtain ⟨n, rfl⟩ : ∃ m, n = m + 1 := ⟨n - 1, by simp at hn; omega⟩
    have ha := hreads a List.mem_cons_self
    have hrest := ih n (by simpa using hn) fun b hb => hreads b (List.mem_cons_of_mem _ hb)
    -- what stands before the item is a line break and blanks
    have hskip : skipVoid false ('\n' :: (((a :: as).flatMap fun a => itemLine (text a)) ++
        ']' :: rest)) = some ((text a).toList ++ ',' ::
          ('\n' :: ((as.flatMap fun a => itemLine (text a)) ++ ']' :: rest))) := by
      rw [← skipVoid_of_starts ha.starts]
      simp [itemLine, skipVoid, isSpace]
    rw [arrayRest_comma ha n hskip, hrest]
    rfl

theorem value_array (depth : Nat) (cs : List Char) :
    value (depth + 1) ('[' :: cs) =
      (arrayRest (value depth) (cs.length + 1) cs).map fun (vs, r) => (.array vs, r) := by
  rw [value]
  rfl

/-- **A written array is read back** if its items are. -/
theorem reads_array {depth : Nat} (as : List α)
    (h : ∀ a ∈ as, Reads (value depth) (text a).toList (val a)) :
    Reads (value (depth + 1)) (arrayText (as.map text)).toList (.array (as.map val)) := by
  match as, h with
  | [], _ =>
    have hshape : (arrayText (([] : List α).map text)).toList = ['[', ']'] := by simp [arrayText]
    rw [hshape]
    refine ⟨⟨'[', [']'], rfl, by simp⟩, fun rest _ => ?_⟩
    rw [List.cons_append, value_array]
    rfl
  | [a], h =>
    have ha := h a List.mem_cons_self
    have hshape : (arrayText ([a].map text)).toList = '[' :: ((text a).toList ++ [']']) := by
      simp [arrayText]
    rw [hshape]
    refine ⟨⟨'[', _, rfl, by simp⟩, fun rest _ => ?_⟩
    rw [List.cons_append, value_array, List.append_assoc, List.singleton_append,
      arrayRest_last ha _ (skipVoid_of_starts ha.starts _)]
    rfl
  | a :: b :: as, h =>
    have hshape : (arrayText ((a :: b :: as).map text)).toList =
        '[' :: '\n' :: (((a :: b :: as).flatMap fun a => itemLine (text a)) ++ [']']) := by
      simp [arrayText, itemLine, List.flatMap_map]
    rw [hshape]
    refine ⟨⟨'[', _, rfl, by simp⟩, fun rest _ => ?_⟩
    rw [List.cons_append, value_array, List.cons_append, List.append_assoc, List.singleton_append,
      arrayRest_lines rest (a :: b :: as) _ ?_ h]
    · rfl
    · -- every item has a line of its own
      have hlength : (a :: b :: as).length ≤
          ((a :: b :: as).flatMap fun a => itemLine (text a)).length :=
        length_le_flatMap_itemLine _
      simp only [List.length_cons, List.length_append] at hlength ⊢
      omega

end Lists

/-! ### Numbers -/

theorem ne_of_isDigit {c d : Char} (hc : c.isDigit = true) (hd : d.isDigit = false) : c ≠ d := by
  rintro rfl
  simp [hc] at hd

theorem fixedDigits_rest {n : Nat} {cs : List Char} {read : Nat × List Char}
    (h : fixedDigits n cs = some read) : read.2 = cs.drop n := by
  rw [fixedDigits] at h
  split at h
  · rw [← Option.some.inj h]
  · cases h

theorem between_rest {low high : Nat} {cs : List Char} {read : Nat × List Char}
    (h : between low high cs = some read) : read.2 = cs.drop 2 := by
  rw [between, Option.bind_eq_bind, Option.bind_eq_some_iff] at h
  obtain ⟨pair, hfixed, h⟩ := h
  dsimp only at h
  split at h
  · rw [← Option.some.inj h]
    exact fixedDigits_rest hfixed
  · cases h

section Digits

variable {ds : List Char} (hds : ∀ c ∈ ds, c.isDigit = true)

include hds

theorem not_mem_digits {c : Char} (hc : c.isDigit = false) : c ∉ ds :=
  fun hmem => ne_of_isDigit (hds c hmem) hc rfl

theorem dropWhile_digits {p : Char → Bool} (hp : ∀ c, c.isDigit = true → p c = true) :
    ds.dropWhile p = [] := by
  have hdrop := @List.dropWhile_append_of_pos _ p ds [] fun c hc => hp c (hds c hc)
  simpa using hdrop

theorem drop_digits (n : Nat) : ∀ c ∈ ds.drop n, c.isDigit = true :=
  fun c hc => hds c (List.mem_of_mem_drop hc)

theorem after?_digits {c : Char} (hc : c.isDigit = false) : after? c ds = none := by
  cases ds with
  | nil => rfl
  | cons d ds =>
    rw [after?, if_neg]
    rintro rfl
    exact not_mem_digits hds hc List.mem_cons_self

/-- A date has a dash after its year. -/
theorem dateRest?_digits : dateRest? ds = none := by
  rw [dateRest?]
  cases hyear : fixedDigits 4 ds with
  | none => rfl
  | some read =>
    show (after? '-' read.2).bind _ = none
    rw [fixedDigits_rest hyear, after?_digits (drop_digits hds 4) (by decide)]
    rfl

/-- A time has a colon after its hour. -/
theorem timeRest?_digits : timeRest? ds = none := by
  rw [timeRest?]
  cases hhour : between 0 23 ds with
  | none => rfl
  | some read =>
    show (after? ':' read.2).bind _ = none
    rw [between_rest hhour, after?_digits (drop_digits hds 2) (by decide)]
    rfl

theorem isDatetime_digits : isDatetime ds = false := by
  simp [isDatetime, isTime, timeRest?_digits hds, dateRest?_digits hds]

theorem splitSign_digits : splitSign ds = (none, ds) := by
  cases ds with
  | nil => rfl
  | cons d ds =>
    have hd := hds d List.mem_cons_self
    rw [splitSign]
    · simpa using ne_of_isDigit (d := '+') hd (by decide)
    · simpa using ne_of_isDigit (d := '-') hd (by decide)

theorem splitExponent_digits : splitExponent ds = (ds, none) := by
  have hdrop : ds.dropWhile (fun c => !(c == 'e' || c == 'E')) = [] := by
    refine dropWhile_digits hds fun c hc => ?_
    simp [ne_of_isDigit (d := 'e') hc (by decide), ne_of_isDigit (d := 'E') hc (by decide)]
  simp only [splitExponent, hdrop]

theorem splitPoint_digits : splitPoint ds = (ds, none) := by
  have hdrop : ds.dropWhile (· != '.') = [] :=
    dropWhile_digits hds fun c hc => by simp [ne_of_isDigit (d := '.') hc (by decide)]
  simp only [splitPoint, hdrop]

/-- A number that is not whole has a point or an exponent. -/
theorem isFloat_digits : isFloat ds = false := by
  have hinf : ds ≠ ['i', 'n', 'f'] := fun h =>
    not_mem_digits hds (c := 'i') (by decide) (by simp [h])
  have hnan : ds ≠ ['n', 'a', 'n'] := fun h =>
    not_mem_digits hds (c := 'n') (by decide) (by simp [h])
  simp only [isFloat, splitSign_digits hds, splitExponent_digits hds, splitPoint_digits hds]
  rw [if_neg (by simp [hinf, hnan])]
  cases decimal? ds <;> rfl

theorem digitRun?_digits (hne : ds ≠ []) : digitRun? Char.isDigit ds = some ds := by
  fun_induction digitRun? Char.isDigit ds with
  | case1 => exact absurd rfl hne
  | case2 c hc => rfl
  | case3 c hc => exact absurd (hds c List.mem_cons_self) hc
  | case4 c cs hc ih => exact absurd (by simp) (not_mem_digits hds (c := '_') (by decide))
  | case5 c cs hc => exact absurd (hds c List.mem_cons_self) hc
  | case6 c cs hcs hunderscore hc ih =>
    rw [ih (fun d hd => hds d (List.mem_cons_of_mem _ hd)) (by simpa using hcs)]
    rfl
  | case7 c cs hcs hunderscore hc => exact absurd (hds c List.mem_cons_self) hc

theorem inBase_digits : inBase 10 ds = Nat.ofDigitChars 10 ds 0 := by
  have hfold : ∀ (cs : List Char) (n : Nat), (∀ c ∈ cs, c.isDigit = true) →
      cs.foldl (fun n c => 10 * n + (hexValue? c).getD 0) n = Nat.ofDigitChars 10 cs n := by
    intro cs
    induction cs with
    | nil => exact fun _ _ => rfl
    | cons c cs ih =>
      intro n hcs
      have hc : ('0' ≤ c && c ≤ '9') = true := by
        have := hcs c List.mem_cons_self
        simpa [Char.isDigit, Char.le_def] using this
      have hvalue : hexValue? c = some (c.toNat - '0'.toNat) := by
        rw [hexValue?, if_pos hc]
      rw [List.foldl_cons, hvalue]
      exact ih _ fun d hd => hcs d (List.mem_cons_of_mem _ hd)
  exact hfold ds 0 hds

end Digits

theorem isDigit_toDigits (n : Nat) : ∀ c ∈ Nat.toDigits 10 n, c.isDigit = true :=
  fun _ hc => Nat.isDigit_of_mem_toDigits (by decide) (by decide) hc

/-- No zero stands before other digits. -/
theorem eq_zero_of_toDigits {n : Nat} {tail : List Char} (h : Nat.toDigits 10 n = '0' :: tail) :
    n = 0 := by
  induction n using Nat.strongRecOn generalizing tail with
  | _ n ih =>
    rw [Nat.toDigits_eq_if (by decide)] at h
    split at h
    · exact Nat.digitChar_eq_zero.1 (List.cons.inj h).1
    · next hn =>
      obtain ⟨d, ds, hds⟩ :=
        List.exists_cons_of_ne_nil (Nat.toDigits_ne_nil (n := n / 10) (b := 10))
      rw [hds] at h
      have hd : d = '0' := (List.cons.inj h).1
      have := ih (n / 10) (by omega) (hd ▸ hds)
      omega

theorem decimal?_toDigits (n : Nat) : decimal? (Nat.toDigits 10 n) = some (Nat.toDigits 10 n) := by
  rw [decimal?]
  · exact digitRun?_digits (isDigit_toDigits n) Nat.toDigits_ne_nil
  · intro c tail heq
    -- zero itself has one digit
    rw [eq_zero_of_toDigits heq] at heq
    simp at heq

theorem fitting_natCast {n : Nat} (hn : n < 0x8000000000000000) : fitting n = some (n : Int) := by
  rw [fitting, if_pos]
  simp only [Bool.and_eq_true, decide_eq_true_eq]
  omega

theorem integer?_toDigits {n : Nat} (hn : n < 0x8000000000000000) :
    integer? (Nat.toDigits 10 n) = some (n : Int) := by
  have hds := isDigit_toDigits n
  -- the mark of a base is no digit
  have hbase : ∀ c tail, c.isDigit = false → Nat.toDigits 10 n ≠ '0' :: c :: tail :=
    fun c tail hc heq => not_mem_digits hds hc (by simp [heq])
  rw [integer?]
  · rw [splitSign_digits hds]
    -- there is no sign
    show (decimal? (Nat.toDigits 10 n)).bind (fun ds =>
      fitting (if (none : Option Char) = some '-' then -(inBase 10 ds : Int) else inBase 10 ds)) = _
    rw [decimal?_toDigits, Option.bind_some, if_neg (by simp), inBase_digits hds,
      Nat.ofDigitChars_ten_toDigits, fitting_natCast hn]
  · exact fun tail => hbase 'x' tail (by decide)
  · exact fun tail => hbase 'o' tail (by decide)
  · exact fun tail => hbase 'b' tail (by decide)

theorem Delimited.not_isWordChar {rest : List Char} (h : Delimited rest) :
    rest.takeWhile isWordChar = [] ∧ rest.dropWhile isWordChar = rest := by
  obtain ⟨c, tail, rfl, rfl | rfl | rfl⟩ := h <;> exact ⟨rfl, rfl⟩

/-- **A written number is read back** if it fits into the written form. -/
theorem reads_integer (depth : Nat) {n : Nat} (hn : n < 0x8000000000000000) :
    Reads (value depth) n.repr.toList (.integer n) := by
  have hds := isDigit_toDigits n
  rw [Nat.toList_repr]
  obtain ⟨d, tail, hcons⟩ := List.exists_cons_of_ne_nil (Nat.toDigits_ne_nil (n := n) (b := 10))
  have hd : d.isDigit = true := hds d (by simp [hcons])
  constructor
  · refine ⟨d, tail, hcons, ?_⟩
    intro hmem
    simp only [List.mem_cons, List.not_mem_nil, or_false] at hmem
    rcases hmem with rfl | rfl | rfl | rfl | rfl | rfl <;> simp at hd
  · intro rest hrest
    have hword : ∀ c ∈ Nat.toDigits 10 n, isWordChar c = true := by
      intro c hc
      simp [isWordChar, Char.isAlphanum, hds c hc]
    have htake : (Nat.toDigits 10 n ++ rest).takeWhile isWordChar = Nat.toDigits 10 n := by
      rw [List.takeWhile_append_of_pos hword, hrest.not_isWordChar.1, List.append_nil]
    have hdrop : (Nat.toDigits 10 n ++ rest).dropWhile isWordChar = rest := by
      rw [List.dropWhile_append_of_pos hword, hrest.not_isWordChar.2]
    have htrue : Nat.toDigits 10 n ≠ ['t', 'r', 'u', 'e'] := fun h =>
      not_mem_digits hds (c := 't') (by decide) (by simp [h])
    have hfalse : Nat.toDigits 10 n ≠ ['f', 'a', 'l', 's', 'e'] := fun h =>
      not_mem_digits hds (c := 'f') (by decide) (by simp [h])
    -- a digit opens neither a text nor an array nor a table
    have hvalue : value depth (Nat.toDigits 10 n ++ rest) = word (Nat.toDigits 10 n ++ rest) := by
      have hhead : ∀ c t, c.isDigit = false → d :: (tail ++ rest) ≠ c :: t :=
        fun c t hc heq => ne_of_isDigit hd hc (List.cons.inj heq).1
      rw [hcons, List.cons_append, value]
      · exact fun t => hhead '"' t (by decide)
      · exact fun t => hhead '\x27' t (by decide)
      · exact fun t _ => hhead '[' t (by decide)
      · exact fun t _ => hhead '\x7b' t (by decide)
      · exact fun _ t _ => hhead '[' t (by decide)
      · exact fun _ t _ => hhead '\x7b' t (by decide)
    rw [hvalue]
    simp only [word, htake, hdrop, isDate, dateRest?_digits hds, isDatetime_digits hds,
      isFloat_digits hds, integer?_toDigits hn]
    simp [htrue, hfalse]

/-! ### Keys -/

/-- What follows a written key does not go on with it. -/
def NoBare (rest : List Char) : Prop :=
  rest.takeWhile isBare = [] ∧ rest.dropWhile isBare = rest

theorem keyText_cases (key : String) :
    (keyText key = key ∧ key.toList ≠ [] ∧ ∀ c ∈ key.toList, isBare c = true) ∨
      (keyText key).toList = Quoting.write key.toList .basic ∨
      (keyText key).toList = Quoting.write key.toList .literal ∧
        Quoting.Suits key.toList .literal := by
  have hsuits := Quoting.suits_ofKey key.toList
  have hquotes : Quoting.ofKey key.toList = .basic ∨ Quoting.ofKey key.toList = .literal := by
    simp only [Quoting.ofKey]
    split
    · exact Or.inl rfl
    · split
      · exact Or.inl rfl
      · split
        · exact Or.inr rfl
        · exact Or.inl rfl
  rw [keyText]
  split
  · next hbare =>
    simp only [Bool.and_eq_true, List.all_eq_true, Bool.not_eq_true',
      String.isEmpty_eq_false_iff] at hbare
    exact Or.inl ⟨rfl, mt String.toList_eq_nil_iff.1 hbare.2, hbare.1⟩
  · rw [String.toList_ofList]
    rcases hquotes with h | h
    · exact Or.inr (Or.inl (by rw [h]))
    · exact Or.inr (Or.inr ⟨by rw [h], h ▸ hsuits⟩)

/-- A written key starts with a character that is neither passed over nor taken for a
bracket or a byte order mark. -/
theorem keyText_head (key : String) : ∃ c tail, (keyText key).toList = c :: tail ∧
    c ∉ [' ', '\t', '\n', '\r', '#', ']'] ∧ c ≠ '[' ∧ c ≠ '\uFEFF' := by
  obtain ⟨c, tail, hcons, hc⟩ : ∃ c tail, (keyText key).toList = c :: tail ∧
      (isBare c = true ∨ c = '"' ∨ c = '\x27') := by
    rcases keyText_cases key with ⟨hkey, hne, hbare⟩ | h | ⟨h, -⟩
    · obtain ⟨c, tail, hcons⟩ := List.exists_cons_of_ne_nil hne
      exact ⟨c, tail, by rw [hkey, hcons], Or.inl (hbare c (by simp [hcons]))⟩
    · exact ⟨_, _, h, Or.inr (Or.inl rfl)⟩
    · exact ⟨_, _, h, Or.inr (Or.inr rfl)⟩
  have hne : ∀ d, isBare d = false → d ≠ '"' → d ≠ '\x27' → c ≠ d := by
    rintro d hbare hquote hliteral rfl
    rcases hc with hc | hc | hc
    · simp [hc] at hbare
    · exact hquote hc
    · exact hliteral hc
  refine ⟨c, tail, hcons, ?_, hne '[' ?_ ?_ ?_, hne '\uFEFF' ?_ ?_ ?_⟩
  · intro hmem
    simp only [List.mem_cons, List.not_mem_nil, or_false] at hmem
    rcases hmem with h | h | h | h | h | h <;> exact hne _ (by decide) (by decide) (by decide) h
  all_goals decide

theorem skipSpace_keyText (key : String) (rest : List Char) :
    skipSpace ((keyText key).toList ++ rest) = (keyText key).toList ++ rest := by
  obtain ⟨c, tail, hcons, hstart, -⟩ := keyText_head key
  exact skipSpace_of_starts ⟨c, tail, hcons, hstart⟩ rest

/-- **A written key is read back.** -/
theorem keyPart_keyText (key : String) {rest : List Char} (hrest : NoBare rest) :
    keyPart ((keyText key).toList ++ rest) = some (key, rest) := by
  rcases keyText_cases key with ⟨hkey, hne, hbare⟩ | h | ⟨h, hsuits⟩
  · obtain ⟨c, tail, hcons⟩ := List.exists_cons_of_ne_nil hne
    have hc : isBare c = true := hbare c (by simp [hcons])
    have htake : (key.toList ++ rest).takeWhile isBare = c :: tail := by
      rw [List.takeWhile_append_of_pos hbare, hrest.1, List.append_nil, hcons]
    have hdrop : (key.toList ++ rest).dropWhile isBare = rest := by
      rw [List.dropWhile_append_of_pos hbare, hrest.2]
    rw [hkey, keyPart, htake, hdrop]
    · show some (String.ofList (c :: tail), rest) = _
      rw [← hcons, String.ofList_toList]
    · intro t heq
      rw [hcons] at heq
      exact absurd hc (by simp [(List.cons.inj heq).1, isBare])
    · intro t heq
      rw [hcons] at heq
      exact absurd hc (by simp [(List.cons.inj heq).1, isBare])
  · rw [h]
    show (basic (escape false 0 key.toList ++ ['"'] ++ rest)).map _ = _
    rw [List.append_assoc, List.singleton_append, basic_escape]
    simp
  · rw [h]
    show (literal (key.toList ++ ['\x27'] ++ rest)).map _ = _
    rw [List.append_assoc, List.singleton_append, literal_append rest hsuits.2.1 hsuits.2.2]
    simp

/-- A dotted key. -/
def dotted (path : List String) : List Char := (".".intercalate (path.map keyText)).toList

theorem dotted_singleton (key : String) : dotted [key] = (keyText key).toList := by
  simp [dotted, String.intercalate_singleton]

theorem dotted_cons_cons (key key' : String) (path : List String) :
    dotted (key :: key' :: path) = (keyText key).toList ++ '.' :: dotted (key' :: path) := by
  simp [dotted, String.intercalate_cons_cons]

/-- A dotted key starts as a key does. -/
theorem dotted_head {path : List String} (hpath : path ≠ []) : ∃ c tail, dotted path = c :: tail ∧
    c ≠ '[' := by
  match path, hpath with
  | [key], _ =>
    obtain ⟨c, tail, hcons, -, hbracket, -⟩ := keyText_head key
    exact ⟨c, tail, by rw [dotted_singleton, hcons], hbracket⟩
  | key :: key' :: path, _ =>
    obtain ⟨c, tail, hcons, -, hbracket, -⟩ := keyText_head key
    exact ⟨c, _, by rw [dotted_cons_cons, hcons, List.cons_append], hbracket⟩

/-- The parts of a dotted key, up to what follows it. -/
theorem keyParts_dotted {rest after : List Char} (hrest : NoBare rest)
    (hskip : skipSpace rest = after) (hdot : ∀ tail, after ≠ '.' :: tail) :
    ∀ (path : List String) (n : Nat), path ≠ [] → path.length ≤ n →
      keyParts n (dotted path ++ rest) = some (path, after) := by
  intro path
  induction path with
  | nil => exact fun _ hne _ => absurd rfl hne
  | cons key path ih =>
    intro n _ hn
    obtain ⟨n, rfl⟩ : ∃ m, n = m + 1 := ⟨n - 1, by simp at hn; omega⟩
    cases path with
    | nil =>
      rw [dotted_singleton, keyParts, skipSpace_keyText, keyPart_keyText key hrest,
        Option.bind_eq_bind, Option.bind_some]
      dsimp only
      rw [hskip]
      split
      · next tail => exact absurd rfl (hdot tail)
      · rfl
    | cons key' path =>
      have hpath := ih n (by simp) (by simpa using hn)
      have hpart : keyPart ((keyText key).toList ++ ('.' :: dotted (key' :: path) ++ rest)) =
          some (key, '.' :: dotted (key' :: path) ++ rest) := keyPart_keyText key ⟨rfl, rfl⟩
      rw [dotted_cons_cons, List.append_assoc, keyParts, skipSpace_keyText, hpart]
      show (keyParts n (dotted (key' :: path) ++ rest)).bind _ = _
      rw [hpath]
      rfl

theorem keyPath_dotted {rest after : List Char} (hrest : NoBare rest)
    (hskip : skipSpace rest = after) (hdot : ∀ tail, after ≠ '.' :: tail)
    {path : List String} (key : String) (hpath : path.length + 1 < depthLimit) :
    keyPath (dotted (path ++ [key]) ++ rest) = some ((path, key), after) := by
  rw [keyPath, keyParts_dotted hrest hskip hdot (path ++ [key]) _ (by simp)
    (by simp; omega)]
  simp

/-- **The key of a line.** -/
theorem keyPath_pair (key : String) (rest : List Char) :
    keyPath ((keyText key).toList ++ ' ' :: '=' :: rest) = some (([], key), '=' :: rest) := by
  have h := @keyPath_dotted (' ' :: '=' :: rest) ('=' :: rest) ⟨rfl, rfl⟩ rfl (by simp) [] key
    (by decide)
  rwa [List.nil_append, dotted_singleton] at h

/-- **The key of a header.** -/
theorem keyPath_header {path : List String} (key : String) (hpath : path.length + 1 < depthLimit)
    (rest : List Char) :
    keyPath (dotted (path ++ [key]) ++ ']' :: rest) = some ((path, key), ']' :: rest) := by
  have hskip : skipSpace (']' :: rest) = ']' :: rest := rfl
  exact keyPath_dotted ⟨rfl, rfl⟩ hskip (by simp) key hpath

end Toml
end NameBinding
