import NameBinding.Capture.Basic

/-!
# The names of captures

A capture name is cut at its first two dots.  The two parts before them make one of seven words,
each with a role; what follows the second dot, further dots included, is the symbol class of a
definition or a reference, and means nothing for the other roles.  Nothing after the second dot is
still a class, the empty one; without a second dot there is none.

## Main definitions

* `Role.classifiedNames`, `Role.plainNames` — the words, and the roles they stand for.
* `Role.Named` — the names that stand for a role and a symbol class.

## Main results

* `cutAtDot_append`, `exists_cut` — a text is cut at its first dot, and each text can be cut.
* `Role.ofName?_of_parts`, `Role.exists_parts` — the same of names and their two dots.
* `Role.ofParts?_words`, `Role.classifiedNames_parts`, `Role.plainNames_parts` — two parts have a
  role just if they make a word.
* `Role.ofName?_exact` — **capture names are read exactly.**
-/

namespace NameBinding

/-! ### Cutting at dots -/

/-- How an optional part is written after a dot. -/
def afterDot : Option (List Char) → List Char
  | none => []
  | some part => '.' :: part

theorem cutAtDot_append {front : List Char} (h : '.' ∉ front) (after : Option (List Char)) :
    cutAtDot (front ++ afterDot after) = (front, after) := by
  induction front with
  | nil => cases after <;> rfl
  | cons c front ih =>
    have hdot : c ≠ '.' := fun hc => h (hc ▸ List.mem_cons_self)
    have hfront : '.' ∉ front := fun hmem => h (List.mem_cons_of_mem c hmem)
    rw [List.cons_append, cutAtDot, if_neg hdot, ih hfront]
    rfl

theorem exists_cut (cs : List Char) :
    ∃ front after, '.' ∉ front ∧ cs = front ++ afterDot after := by
  induction cs with
  | nil => exact ⟨[], none, List.not_mem_nil, rfl⟩
  | cons c cs ih =>
    by_cases hdot : c = '.'
    · exact ⟨[], some cs, List.not_mem_nil, by rw [hdot]; rfl⟩
    · obtain ⟨front, after, hfront, rfl⟩ := ih
      refine ⟨c :: front, after, ?_, rfl⟩
      rw [List.mem_cons]
      rintro (hc | hmem)
      · exact hdot hc.symm
      · exact hfront hmem

namespace Role

/-- How an optional symbol class is written after a dot. -/
def classText : Option String → String
  | none => ""
  | some symbol => "." ++ symbol

theorem toList_classText (symbol : Option String) :
    (classText symbol).toList = afterDot (symbol.map String.toList) := by
  cases symbol with
  | none => rfl
  | some symbol =>
    rw [classText, String.toList_append]
    rfl

/-! ### Names and their parts -/

/-- A name without a dot has no role. -/
theorem ofName?_of_no_dot {name : String} (h : '.' ∉ name.toList) : ofName? name = none := by
  have hcut : cutAtDot name.toList = (name.toList, none) := by
    simpa [afterDot] using cutAtDot_append h none
  rw [ofName?, hcut]

/-- The first two parts of a name give the role, and all the rest is the class. -/
theorem ofName?_of_parts {head tail : String} (hhead : '.' ∉ head.toList)
    (htail : '.' ∉ tail.toList) (symbol : Option String) :
    ofName? (head ++ "." ++ tail ++ classText symbol) =
      (ofParts? head tail).map fun role => (role, if role.classified then symbol else none) := by
  have hname : (head ++ "." ++ tail ++ classText symbol).toList =
      head.toList ++ afterDot (some (tail.toList ++ afterDot (symbol.map String.toList))) := by
    simp [toList_classText, afterDot]
  have hsymbol : (symbol.map String.toList).map String.ofList = symbol := by
    cases symbol <;> simp
  rw [ofName?, hname, cutAtDot_append hhead]
  dsimp only
  rw [cutAtDot_append htail]
  dsimp only
  rw [String.ofList_toList, String.ofList_toList, hsymbol]

/-- A name has no dot, or it has its two parts and perhaps a class. -/
theorem exists_parts (name : String) : '.' ∉ name.toList ∨
    ∃ head tail symbol, '.' ∉ head.toList ∧ '.' ∉ tail.toList ∧
      name = head ++ "." ++ tail ++ classText symbol := by
  obtain ⟨head, after, hhead, hname⟩ := exists_cut name.toList
  cases after with
  | none =>
    refine Or.inl ?_
    rwa [hname, afterDot, List.append_nil]
  | some rest =>
    obtain ⟨tail, symbol, htail, rfl⟩ := exists_cut rest
    refine Or.inr ⟨String.ofList head, String.ofList tail, symbol.map String.ofList,
      by rwa [String.toList_ofList], by rwa [String.toList_ofList], ?_⟩
    rw [← String.toList_inj, hname]
    cases symbol <;> simp [toList_classText, afterDot]

/-! ### The words -/

/-- The words whose names keep a symbol class. -/
def classifiedNames : List (String × Role) :=
  [("local.definition", .definition .localScope), ("hoist.definition", .definition .hoisted),
    ("global.definition", .definition .globalScope), ("local.reference", .reference)]

/-- The words whose names keep nothing after them. -/
def plainNames : List (String × Role) :=
  [("local.scope", .scope), ("local.import", .imported), ("local.ignore", .ignored)]

/-- The name stands for the role and the symbol class. -/
inductive Named : String → Role → Option String → Prop
  /-- A definition or reference without a class. -/
  | unclassified {word : String} {role : Role} (h : (word, role) ∈ classifiedNames) :
      Named word role none
  /-- A definition or reference with a class, which may be empty or hold dots. -/
  | classified {word : String} {role : Role} (h : (word, role) ∈ classifiedNames)
      (symbol : String) : Named (word ++ "." ++ symbol) role (some symbol)
  /-- A scope, import or ignored piece. -/
  | plain {word : String} {role : Role} (h : (word, role) ∈ plainNames) : Named word role none
  /-- The same, with more after a dot. -/
  | extended {word : String} {role : Role} (h : (word, role) ∈ plainNames) (rest : String) :
      Named (word ++ "." ++ rest) role none

/-- Two parts that have a role make one of the words. -/
theorem ofParts?_words {head tail : String} {role : Role} (h : ofParts? head tail = some role) :
    (head ++ "." ++ tail, role) ∈ if role.classified then classifiedNames else plainNames := by
  unfold ofParts? at h
  split at h <;> cases h <;> decide

/-- The word is made of two parts without dots, which have its role. -/
structure IsWord (word head tail : String) (role : Role) : Prop where
  head_no_dot : '.' ∉ head.toList
  tail_no_dot : '.' ∉ tail.toList
  word_eq : word = head ++ "." ++ tail
  role_eq : ofParts? head tail = some role

theorem classifiedNames_parts {word : String} {role : Role} (h : (word, role) ∈ classifiedNames) :
    role.classified = true ∧ ∃ head tail, IsWord word head tail role := by
  simp only [classifiedNames, List.mem_cons, Prod.mk.injEq, List.not_mem_nil, or_false] at h
  rcases h with ⟨rfl, rfl⟩ | ⟨rfl, rfl⟩ | ⟨rfl, rfl⟩ | ⟨rfl, rfl⟩
  · exact ⟨rfl, "local", "definition", by decide, by decide, by decide, rfl⟩
  · exact ⟨rfl, "hoist", "definition", by decide, by decide, by decide, rfl⟩
  · exact ⟨rfl, "global", "definition", by decide, by decide, by decide, rfl⟩
  · exact ⟨rfl, "local", "reference", by decide, by decide, by decide, rfl⟩

theorem plainNames_parts {word : String} {role : Role} (h : (word, role) ∈ plainNames) :
    role.classified = false ∧ ∃ head tail, IsWord word head tail role := by
  simp only [plainNames, List.mem_cons, Prod.mk.injEq, List.not_mem_nil, or_false] at h
  rcases h with ⟨rfl, rfl⟩ | ⟨rfl, rfl⟩ | ⟨rfl, rfl⟩
  · exact ⟨rfl, "local", "scope", by decide, by decide, by decide, rfl⟩
  · exact ⟨rfl, "local", "import", by decide, by decide, by decide, rfl⟩
  · exact ⟨rfl, "local", "ignore", by decide, by decide, by decide, rfl⟩

/-! ### Reading names -/

theorem IsWord.ofName? {word head tail : String} {role : Role} (h : IsWord word head tail role)
    (symbol : Option String) :
    Role.ofName? (word ++ classText symbol) =
      some (role, if role.classified then symbol else none) := by
  rw [h.word_eq, ofName?_of_parts h.head_no_dot h.tail_no_dot, h.role_eq, Option.map_some]

/-- A name that is read stands for what it is read as. -/
theorem named_of_ofName? {name : String} {role : Role} {symbol : Option String}
    (h : ofName? name = some (role, symbol)) : Named name role symbol := by
  obtain hdot | ⟨head, tail, after, hhead, htail, rfl⟩ := exists_parts name
  · rw [ofName?_of_no_dot hdot] at h
    cases h
  rw [ofName?_of_parts hhead htail, Option.map_eq_some_iff] at h
  obtain ⟨_, hrole, heq⟩ := h
  obtain ⟨rfl, rfl⟩ := Prod.mk.inj heq
  -- which word it is decides whether the rest of the name is a class
  have hword := ofParts?_words hrole
  split at hword
  · next hclassified =>
    rw [if_pos hclassified]
    cases after with
    | none =>
      rw [classText, String.append_empty]
      exact .unclassified hword
    | some symbol =>
      rw [classText, ← String.append_assoc]
      exact .classified hword symbol
  · next hplain =>
    rw [if_neg hplain]
    cases after with
    | none =>
      rw [classText, String.append_empty]
      exact .plain hword
    | some rest =>
      rw [classText, ← String.append_assoc]
      exact .extended hword rest

/-- A name is read as what it stands for. -/
theorem Named.ofName?_eq {name : String} {role : Role} {symbol : Option String}
    (h : Named name role symbol) : Role.ofName? name = some (role, symbol) := by
  cases h with
  | unclassified h =>
    obtain ⟨hclassified, _, _, hword⟩ := classifiedNames_parts h
    simpa [classText, hclassified] using hword.ofName? none
  | classified h symbol =>
    obtain ⟨hclassified, _, _, hword⟩ := classifiedNames_parts h
    rw [String.append_assoc]
    simpa [classText, hclassified] using hword.ofName? (some symbol)
  | plain h =>
    obtain ⟨hplain, _, _, hword⟩ := plainNames_parts h
    simpa [classText, hplain] using hword.ofName? none
  | extended h rest =>
    obtain ⟨hplain, _, _, hword⟩ := plainNames_parts h
    rw [String.append_assoc]
    simpa [classText, hplain] using hword.ofName? (some rest)

/-- **Capture names are read exactly.**  A name is read as a role and a symbol class just if it
stands for them: the word of a definition or reference, alone or with its class after a dot, or the
word of a scope, an import or an ignored piece, alone or with anything after a dot.  Every other
name is refused. -/
theorem ofName?_exact (name : String) :
    (∀ role symbol, ofName? name = some (role, symbol) ↔ Named name role symbol) ∧
    (ofName? name = none ↔ ∀ role symbol, ¬Named name role symbol) := by
  refine ⟨fun role symbol => ⟨named_of_ofName?, Named.ofName?_eq⟩, ?_, ?_⟩
  · intro hnone role symbol hnamed
    rw [hnamed.ofName?_eq] at hnone
    cases hnone
  · intro hnot
    cases hread : ofName? name with
    | none => rfl
    | some read => exact absurd (named_of_ofName? hread) (hnot read.1 read.2)

example : ofName? "hoist.definition.a.b" = some (.definition .hoisted, some "a.b") ∧
    ofName? "local.reference." = some (.reference, some "") ∧
    ofName? "local.scope.a" = some (.scope, none) ∧ ofName? "hoist.scope" = none := by decide

end Role
end NameBinding
