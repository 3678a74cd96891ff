import NameBinding.Toml.Printer
import NameBinding.Toml.Quoted

/-!
# Written texts are read back

A text is written in one of four kinds of quotes.  Whatever is inside, the reader for
these quotes returns the text and stops right after the closing quotes.  Two things make
this more than a walk through the text: characters that cannot stand for themselves are
escaped, and on several lines quotes may stand right before the closing ones, where only
their number tells them apart.

## Main definitions

* `NoQuote` — what follows a written text does not start with a quote.

## Main results

* `basic_escape`, `multilineBasicFrom_escape` — escapes are undone.
* `literal_append`, `multilineLiteralFrom_append` — so is the absence of them.
* `quoted_write` — **every text is read back from the quotes it is written in.**
-/

namespace NameBinding
namespace Toml

/-! ### Characters -/

theorem isControl_iff {c : Char} :
    isControl c = true ↔ (c.toNat < 0x20 ∧ c ≠ '\t') ∨ c.toNat = 0x7F := by
  simp [isControl]

/-- A control character is written with two hexadecimal digits that lead back to it. -/
theorem hexChar?_hexDigit {c : Char} (h : isControl c = true) :
    hexChar? ['0', '0', hexDigit (c.toNat / 16), hexDigit (c.toNat % 16)] = some c := by
  have hall : ∀ n < 128,
      hexChar? ['0', '0', hexDigit (n / 16), hexDigit (n % 16)] = some (Char.ofNat n) := by
    decide
  have hlt : c.toNat < 128 := by
    rcases isControl_iff.mp h with h | h <;> omega
  rw [hall c.toNat hlt, Char.ofNat_toNat]

/-- **How a character is written in a basic string**: as a short escape, as a line break
on several lines, by its code, or as itself. -/
theorem escapeChar_cases (multiline : Bool) (c : Char) :
    (∃ e, shortEscape? e = some c ∧ escapeChar multiline c = ['\\', e]) ∨
      (multiline = true ∧ c = '\n' ∧ escapeChar multiline c = ['\n']) ∨
      (isControl c = true ∧ escapeChar multiline c =
        ['\\', 'u', '0', '0', hexDigit (c.toNat / 16), hexDigit (c.toNat % 16)]) ∨
      (c ≠ '\\' ∧ isControl c = false ∧ escapeChar multiline c = [c]) := by
  unfold escapeChar
  split
  · next h => exact Or.inl ⟨'b', by rw [beq_iff_eq.mp h]; rfl, rfl⟩
  split
  · next h => exact Or.inl ⟨'t', by rw [beq_iff_eq.mp h]; rfl, rfl⟩
  split
  · next h =>
    cases multiline with
    | true => exact Or.inr (Or.inl ⟨rfl, beq_iff_eq.mp h, rfl⟩)
    | false => exact Or.inl ⟨'n', by rw [beq_iff_eq.mp h]; rfl, rfl⟩
  split
  · next h => exact Or.inl ⟨'f', by rw [beq_iff_eq.mp h]; rfl, rfl⟩
  split
  · next h => exact Or.inl ⟨'r', by rw [beq_iff_eq.mp h]; rfl, rfl⟩
  split
  · next h => exact Or.inl ⟨'\\', by rw [beq_iff_eq.mp h]; rfl, rfl⟩
  next hslash =>
  split
  · next h => exact Or.inr (Or.inr (Or.inl ⟨h, rfl⟩))
  · next h => exact Or.inr (Or.inr (Or.inr ⟨by simpa using hslash, by simpa using h, rfl⟩))

/-- A character that is no quote is not written with a quote in front. -/
theorem head?_escapeChar (multiline : Bool) {c : Char} (hquote : c ≠ '"') (rest : List Char) :
    (escapeChar multiline c ++ rest).head? ≠ some '"' := by
  rcases escapeChar_cases multiline c with
    ⟨e, -, h⟩ | ⟨-, -, h⟩ | ⟨-, h⟩ | ⟨-, -, h⟩ <;> rw [h] <;> simp [hquote]

/-! ### Basic strings -/

theorem basic_short {c e : Char} (h : shortEscape? c = some e) (rest : List Char) :
    basic ('\\' :: c :: rest) = consRead e (basic rest) := by
  have hu : c ≠ 'u' := by rintro rfl; cases h
  have hU : c ≠ 'U' := by rintro rfl; cases h
  simp [basic, hu, hU, h]

/-- A character that is no quote is read back. -/
theorem basic_escapeChar {c : Char} (hquote : c ≠ '"') (rest : List Char) :
    basic (escapeChar false c ++ rest) = consRead c (basic rest) := by
  rcases escapeChar_cases false c with
    ⟨e, he, h⟩ | ⟨hmultiline, -, -⟩ | ⟨hcontrol, h⟩ | ⟨hslash, hcontrol, h⟩
  · rw [h]
    exact basic_short he rest
  · cases hmultiline
  · rw [h]
    simp only [List.cons_append, List.nil_append, basic, hexChar?_hexDigit hcontrol]
    rfl
  · rw [h, List.singleton_append, basic.eq_def]
    split <;> simp_all

/-- **Escapes of a basic string are undone.** -/
theorem basic_escape (rest : List Char) : ∀ (cs : List Char) (quotes : Nat),
    basic (escape false quotes cs ++ '"' :: rest) = some (cs, rest) := by
  intro cs
  induction cs with
  | nil => intro quotes; rfl
  | cons c cs ih =>
    intro quotes
    rw [escape]
    by_cases hquote : c = '"'
    · subst hquote
      simp only [beq_self_eq_true, if_true, Bool.false_and, Bool.false_eq_true, if_false,
        List.cons_append]
      rw [basic_short rfl, ih]
      rfl
    · rw [if_neg (by simpa using hquote), List.append_assoc, basic_escapeChar hquote, ih]
      rfl

/-! ### Basic strings of several lines -/

theorem multilineBasicFrom_short {c e : Char} (h : shortEscape? c = some e) (rest : List Char) :
    multilineBasicFrom false ('\\' :: c :: rest) =
      consRead e (multilineBasicFrom false rest) := by
  have hu : c ≠ 'u' := by rintro rfl; cases h
  have hU : c ≠ 'U' := by rintro rfl; cases h
  simp [multilineBasicFrom, hu, hU, h]

/-- A quote that is not the first of three stands for itself. -/
theorem multilineBasicFrom_quote {rest : List Char} (h : ∀ tail, rest ≠ '"' :: '"' :: tail) :
    multilineBasicFrom false ('"' :: rest) = consRead '"' (multilineBasicFrom false rest) := by
  simp [multilineBasicFrom, h, isControl]

/-- A character that is no quote is read back. -/
theorem multilineBasicFrom_escapeChar {c : Char} (hquote : c ≠ '"') (rest : List Char) :
    multilineBasicFrom false (escapeChar true c ++ rest) =
      consRead c (multilineBasicFrom false rest) := by
  rcases escapeChar_cases true c with
    ⟨e, he, h⟩ | ⟨-, rfl, h⟩ | ⟨hcontrol, h⟩ | ⟨hslash, hcontrol, h⟩
  · rw [h]
    exact multilineBasicFrom_short he rest
  · rw [h]
    simp [multilineBasicFrom]
  · rw [h]
    simp only [List.cons_append, List.nil_append, multilineBasicFrom, hexChar?_hexDigit hcontrol]
    rfl
  · have hreturn : c ≠ '\r' := by rintro rfl; cases hcontrol
    rw [h, List.singleton_append, multilineBasicFrom.eq_def]
    split <;> simp_all

/-- The three quotes at the end of a text, and what follows. -/
def closing (quote : Char) (rest : List Char) : List Char := quote :: quote :: quote :: rest

/-- **Escapes of a basic string of several lines are undone.**  The three statements are
about a text after no, one or two quotes that stand for themselves. -/
theorem multilineBasicFrom_escape {rest : List Char} (hrest : rest.head? ≠ some '"') :
    ∀ cs : List Char,
      multilineBasicFrom false (escape true 0 cs ++ closing '"' rest) = some (cs, rest) ∧
      multilineBasicFrom false ('"' :: (escape true 1 cs ++ closing '"' rest)) =
        some ('"' :: cs, rest) ∧
      multilineBasicFrom false ('"' :: '"' :: (escape true 2 cs ++ closing '"' rest)) =
        some ('"' :: '"' :: cs, rest) := by
  intro cs
  induction cs with
  | nil =>
    simp only [escape, List.nil_append, closing]
    refine ⟨?_, ?_, ?_⟩
    · cases rest with
      | nil => rfl
      | cons c rest => simp_all [multilineBasicFrom]
    · cases rest with
      | nil => rfl
      | cons c rest => simp_all [multilineBasicFrom]
    · rfl
  | cons c cs ih =>
    obtain ⟨hnone, hone, htwo⟩ := ih
    by_cases hquote : c = '"'
    · subst hquote
      refine ⟨hone, htwo, ?_⟩
      -- the third quote in a row is escaped
      show multilineBasicFrom false
        ('"' :: '"' :: '\\' :: '"' :: (escape true 0 cs ++ closing '"' rest)) = _
      rw [multilineBasicFrom_quote (by simp), multilineBasicFrom_quote (by simp),
        multilineBasicFrom_short rfl, hnone]
      rfl
    · have hwritten : ∀ quotes, escape true quotes (c :: cs) ++ closing '"' rest =
          escapeChar true c ++ (escape true 0 cs ++ closing '"' rest) := by
        intro quotes
        rw [escape, if_neg (by simpa using hquote), List.append_assoc]
      have hread : multilineBasicFrom false
          (escapeChar true c ++ (escape true 0 cs ++ closing '"' rest)) = some (c :: cs, rest) := by
        rw [multilineBasicFrom_escapeChar hquote, hnone]
        rfl
      -- no quote follows the ones before the character, so they do not close the text
      have hhead := head?_escapeChar true hquote (escape true 0 cs ++ closing '"' rest)
      simp only [hwritten]
      refine ⟨hread, ?_, ?_⟩
      · rw [multilineBasicFrom_quote, hread]
        · rfl
        · intro tail htail
          rw [htail] at hhead
          exact hhead rfl
      · rw [multilineBasicFrom_quote, multilineBasicFrom_quote, hread]
        · rfl
        · intro tail htail
          rw [htail] at hhead
          exact hhead rfl
        · intro tail htail
          rw [(List.cons.inj htail).2] at hhead
          exact hhead rfl

/-! ### Literal strings -/

/-- **A text without single quotes and control characters is read as it stands.** -/
theorem literal_append {cs : List Char} (rest : List Char) (hquote : '\x27' ∉ cs)
    (hcontrol : ∀ c ∈ cs, isControl c = false) :
    literal (cs ++ '\x27' :: rest) = some (cs, rest) := by
  induction cs with
  | nil => rfl
  | cons c cs ih =>
    rw [List.mem_cons, not_or] at hquote
    rw [List.cons_append, literal, if_neg (by simpa using Ne.symm hquote.1),
      if_neg (by simp [hcontrol c List.mem_cons_self]),
      ih hquote.2 fun d hd => hcontrol d (List.mem_cons_of_mem _ hd)]
    rfl

theorem multilineLiteralFrom_plain {c : Char} {rest : List Char}
    (hquotes : ∀ tail, c :: rest ≠ '\x27' :: '\x27' :: '\x27' :: tail)
    (hcontrol : isControl c = true → c = '\n') :
    multilineLiteralFrom (c :: rest) = consRead c (multilineLiteralFrom rest) := by
  have hreturn : c ≠ '\r' := by rintro rfl; cases hcontrol rfl
  rw [multilineLiteralFrom.eq_def]
  split
  · next heq => cases heq
  · next heq => exact absurd heq (hquotes _)
  · next heq => exact absurd heq (hquotes _)
  · next heq => exact absurd heq (hquotes _)
  · next heq => cases heq; exact absurd rfl hreturn
  · next heq =>
    cases heq
    refine if_neg ?_
    rw [Bool.and_eq_true, bne_iff_ne]
    exact fun h => h.2 (hcontrol h.1)

theorem hasTriple_of_cons {q c : Char} {cs : List Char} (h : hasTriple q (c :: cs) = false) :
    hasTriple q cs = false := by
  match cs, h with
  | [], _ => rfl
  | [_], _ => rfl
  | a :: b :: cs, h =>
    rw [hasTriple, Bool.or_eq_false_iff] at h
    exact h.2

/-- **A text without three single quotes in a row is read as it stands**, also if single
quotes stand at its end. -/
theorem multilineLiteralFrom_append {rest : List Char} (hrest : rest.head? ≠ some '\x27') :
    ∀ cs : List Char, hasTriple '\x27' cs = false → (∀ c ∈ cs, isControl c = true → c = '\n') →
      multilineLiteralFrom (cs ++ closing '\x27' rest) = some (cs, rest) := by
  intro cs
  induction cs with
  | nil =>
    intro _ _
    show multilineLiteralFrom ('\x27' :: '\x27' :: '\x27' :: rest) = _
    cases rest with
    | nil => rfl
    | cons d rest => simp_all [multilineLiteralFrom]
  | cons c cs ih =>
    intro htriple hcontrol
    have hread := ih (hasTriple_of_cons htriple) fun d hd => hcontrol d (List.mem_cons_of_mem _ hd)
    have hplain : (∀ tail, c :: (cs ++ closing '\x27' rest) ≠
        '\x27' :: '\x27' :: '\x27' :: tail) →
        multilineLiteralFrom (c :: cs ++ closing '\x27' rest) = some (c :: cs, rest) := by
      intro hquotes
      rw [List.cons_append, multilineLiteralFrom_plain hquotes (hcontrol c List.mem_cons_self),
        hread]
      rfl
    by_cases hquote : c = '\x27'
    · subst hquote
      -- the closing quotes follow at once, after one more quote, or later
      match cs with
      | [] =>
        show multilineLiteralFrom ('\x27' :: '\x27' :: '\x27' :: '\x27' :: rest) = _
        cases rest with
        | nil => rfl
        | cons d rest => simp_all [multilineLiteralFrom]
      | [d] =>
        by_cases hd : d = '\x27'
        · subst hd
          rfl
        · exact hplain (by simp [hd])
      | d :: d' :: cs =>
        have hboth : ¬ (d = '\x27' ∧ d' = '\x27') := by
          rintro ⟨rfl, rfl⟩
          simp [hasTriple] at htriple
        refine hplain fun tail htail => hboth ?_
        simp only [List.cons_append, List.cons.injEq] at htail
        exact ⟨htail.2.1, htail.2.2.1⟩
    · exact hplain (by simp [hquote])

/-! ### All quotes -/

/-- What follows a written text does not start with a quote. -/
def NoQuote (rest : List Char) : Prop :=
  rest.head? ≠ some '"' ∧ rest.head? ≠ some '\x27'

/-- Where nothing is escaped, nothing needs to be. -/
def Quoting.Suits (cs : List Char) : Quoting → Prop
  | .basic | .multilineBasic => True
  | .literal => cs ≠ [] ∧ '\x27' ∉ cs ∧ ∀ c ∈ cs, isControl c = false
  | .multilineLiteral => hasTriple '\x27' cs = false ∧ ∀ c ∈ cs, isControl c = true → c = '\n'

theorem eq_newline_of_needsEscape {cs : List Char} (h : needsEscape cs = false) :
    ∀ c ∈ cs, isControl c = true → c = '\n' := by
  intro c hc hcontrol
  rw [needsEscape, List.any_eq_false] at h
  simpa [hcontrol] using h c hc

/-- The quotes chosen for a text suit it. -/
theorem Quoting.suits_ofText (cs : List Char) : (Quoting.ofText cs).Suits cs := by
  unfold Quoting.ofText
  dsimp only
  split
  · split <;> trivial
  next hescape =>
  have hcontrol := eq_newline_of_needsEscape (Bool.eq_false_iff.mpr hescape)
  split
  · trivial
  next hplain =>
  split
  · next hliteral =>
    simp only [Bool.and_eq_true, Bool.not_eq_true', List.contains_eq_mem,
      decide_eq_false_iff_not] at hliteral hplain
    refine ⟨?_, hliteral.2, fun c hc => Bool.eq_false_iff.mpr fun h => ?_⟩
    · rintro rfl
      exact hplain ⟨⟨hliteral.1, List.not_mem_nil⟩, List.not_mem_nil⟩
    · exact hliteral.1 (hcontrol c hc h ▸ hc)
  split
  · trivial
  split
  · next htriple => exact ⟨by simpa using htriple, hcontrol⟩
  split <;> trivial

/-- So do the quotes chosen for a key. -/
theorem Quoting.suits_ofKey (cs : List Char) : (Quoting.ofKey cs).Suits cs := by
  unfold Quoting.ofKey
  split
  · trivial
  next hcontrol =>
  split
  · trivial
  next hplain =>
  split
  · next hliteral =>
    simp only [Bool.and_eq_true, Bool.not_eq_true', List.contains_eq_mem,
      decide_eq_false_iff_not] at hliteral hplain
    refine ⟨?_, hliteral, ?_⟩
    · rintro rfl
      exact hplain ⟨List.not_mem_nil, List.not_mem_nil⟩
    · simpa using hcontrol
  · trivial

/-- The inside of a basic string does not start with a quote. -/
theorem head?_escape {cs : List Char} (hcs : cs ≠ []) (rest : List Char) :
    (escape false 0 cs ++ rest).head? ≠ some '"' := by
  cases cs with
  | nil => exact absurd rfl hcs
  | cons c cs =>
    rw [escape]
    split
    · simp
    · next hquote =>
      rw [List.append_assoc]
      exact head?_escapeChar false (by simpa using hquote) _

/-- A basic string is told from one of several lines by its first characters. -/
theorem quoted_basic (cs : List Char) {rest : List Char} (hrest : NoQuote rest) :
    quoted ('"' :: (escape false 0 cs ++ '"' :: rest)) = some (String.ofList cs, rest) := by
  -- the closing quote of the empty text is the only one in front
  have hnot : ∀ tail, escape false 0 cs ++ '"' :: rest ≠ '"' :: '"' :: tail := by
    intro tail htail
    by_cases hcs : cs = []
    · subst hcs
      have hrest' : rest = '"' :: tail := (List.cons.inj htail).2
      rw [hrest'] at hrest
      exact hrest.1 rfl
    · have hhead := head?_escape hcs ('"' :: rest)
      rw [htail] at hhead
      exact hhead rfl
  rw [quoted, basic_escape]
  · rfl
  · exact hnot

theorem quoted_literal {cs : List Char} (hcs : Quoting.Suits cs .literal) (rest : List Char) :
    quoted ('\x27' :: (cs ++ '\x27' :: rest)) = some (String.ofList cs, rest) := by
  obtain ⟨hne, hquote, hcontrol⟩ := hcs
  have hnot : ∀ tail, cs ++ '\x27' :: rest ≠ '\x27' :: '\x27' :: tail := by
    intro tail htail
    cases cs with
    | nil => exact hne rfl
    | cons c cs => exact hquote ((List.cons.inj htail).1 ▸ List.mem_cons_self)
  rw [quoted, literal_append rest hquote hcontrol]
  · rfl
  · exact hnot

/-- Only a line break right after the opening quotes is dropped. -/
theorem dropLineBreak_eq_self {cs : List Char} (hnewline : cs.head? ≠ some '\n')
    (hreturn : cs.head? ≠ some '\r') : dropLineBreak cs = cs := by
  cases cs with
  | nil => rfl
  | cons c cs =>
    rw [dropLineBreak.eq_def]
    split <;> simp_all

/-- The line break after the opening quotes is not taken for one of the text. -/
theorem dropLineBreak_opening {cs body : List Char}
    (h : '\n' ∉ cs → body.head? ≠ some '\n' ∧ body.head? ≠ some '\r') :
    dropLineBreak (opening cs ++ body) = body := by
  unfold opening
  split
  · rfl
  · next hno =>
    rw [List.contains_eq_mem, decide_eq_true_eq] at hno
    exact dropLineBreak_eq_self (h hno).1 (h hno).2

theorem multilineBasic_escape (cs : List Char) {rest : List Char} (hrest : NoQuote rest) :
    multilineBasic (opening cs ++ (escape true 0 cs ++ closing '"' rest)) = some (cs, rest) := by
  rw [multilineBasic, dropLineBreak_opening, (multilineBasicFrom_escape hrest.1 cs).1]
  -- a carriage return is escaped, and a line break is not in the text
  intro hno
  cases cs with
  | nil => simp [escape, closing]
  | cons c cs =>
    rw [escape]
    split
    · simp
    · rw [List.append_assoc]
      rcases escapeChar_cases true c with
        ⟨e, -, h⟩ | ⟨-, rfl, h⟩ | ⟨-, h⟩ | ⟨-, hcontrol, h⟩
      · simp [h]
      · exact absurd List.mem_cons_self hno
      · simp [h]
      · have hnewline : c ≠ '\n' := by rintro rfl; cases hcontrol
        have hreturn : c ≠ '\r' := by rintro rfl; cases hcontrol
        simp [h, hnewline, hreturn]

theorem multilineLiteral_append {cs : List Char} (hcs : Quoting.Suits cs .multilineLiteral)
    {rest : List Char} (hrest : NoQuote rest) :
    multilineLiteral (opening cs ++ (cs ++ closing '\x27' rest)) = some (cs, rest) := by
  rw [multilineLiteral, dropLineBreak_opening, multilineLiteralFrom_append hrest.2 cs hcs.1 hcs.2]
  intro hno
  cases cs with
  | nil => simp [closing]
  | cons c cs =>
    have hnewline : c ≠ '\n' := by rintro rfl; exact hno List.mem_cons_self
    have hreturn : c ≠ '\r' := by
      rintro rfl
      cases hcs.2 _ List.mem_cons_self rfl
    simp [hnewline, hreturn]

/-- **Every text is read back from the quotes it is written in.** -/
theorem quoted_write {cs rest : List Char} {q : Quoting} (hq : q.Suits cs)
    (hrest : NoQuote rest) : quoted (q.write cs ++ rest) = some (String.ofList cs, rest) := by
  cases q with
  | basic =>
    have hshape : Quoting.basic.write cs ++ rest =
        '"' :: (escape false 0 cs ++ '"' :: rest) := by simp [Quoting.write]
    rw [hshape, quoted_basic cs hrest]
  | literal =>
    have hshape : Quoting.literal.write cs ++ rest =
        '\x27' :: (cs ++ '\x27' :: rest) := by simp [Quoting.write]
    rw [hshape, quoted_literal hq rest]
  | multilineBasic =>
    have hshape : Quoting.multilineBasic.write cs ++ rest =
        '"' :: '"' :: '"' :: (opening cs ++ (escape true 0 cs ++ closing '"' rest)) := by
      simp [Quoting.write, closing]
    rw [hshape, quoted, multilineBasic_escape cs hrest]
    rfl
  | multilineLiteral =>
    have hshape : Quoting.multilineLiteral.write cs ++ rest =
        '\x27' :: '\x27' :: '\x27' :: (opening cs ++ (cs ++ closing '\x27' rest)) := by
      simp [Quoting.write, closing]
    rw [hshape, quoted, multilineLiteral_append hq hrest]
    rfl

end Toml
end NameBinding
