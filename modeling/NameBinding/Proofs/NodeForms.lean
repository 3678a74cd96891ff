import NameBinding.Node.Json

/-!
# The forms of a node

A node is a record, and so are the spans, points and symbol positions in it.  A record is written as
an object with a member for each of its keys.  It is read from any object that has these members,
in any order and among others, or from the array of their values; the symbol position of a
definition or reference may also be missing.  So a node has many forms, all of them are read as that
node, and one of them is the one that is written.

## Main definitions

* `Json.Holds` — a value has the members of a record.
* `Point.Form`, `Span.Form`, `SymbolIndex.Form`, `Node.Form` — the forms of a point, a span, a
  symbol position and a node.
* `Node.Fits` — the numbers of a node are sizes.

## Main results

* `Json.record?_eq_some_iff` — what a record is read from, be it an object or an array.
* `Point.ofJson?_eq_some_iff`, `Span.ofJson?_eq_some_iff`, `SymbolIndex.ofJson?_eq_some_iff` — what
  is read are the forms.
* `Node.ofMembers?_eq_ofValues?`, `Node.exists_members` — an object is read as the array of its
  members.
* `Node.ofJson?_eq_some_iff` — the same of nodes; `Node.form_toJson` — what is written is a form.
* `Node.json_roundTrip` — **every form of a node is read as the node, and written in one form.**
-/

namespace NameBinding

namespace Json

variable {v : Json}

theorem natural?_eq_some_iff {n : Nat} : v.natural? = some n ↔ n < Size.bound ∧ v = natural n := by
  constructor
  · intro h
    unfold natural? at h
    split at h
    · rw [Option.ite_none_right_eq_some, Option.some.injEq] at h
      obtain ⟨hlt, rfl⟩ := h
      exact ⟨hlt, rfl⟩
    · cases h
  · rintro ⟨hlt, rfl⟩
    exact if_pos hlt

theorem string?_eq_some_iff {s : String} : v.string? = some s ↔ v = .string s := by
  cases v <;> simp [string?]

/-- The value is a record with the given members: an object that has them, perhaps among others, or
the array of them in order. -/
def Holds (keys : List String) (v : Json) (values : List Json) : Prop :=
  match v with
  | .object ms => keys.map (member? ms) = values.map some
  | .array items => items = values ∧ keys.length = values.length
  | _ => False

theorem Holds.cases {keys : List String} {values : List Json} (h : v.Holds keys values) :
    (∃ ms, v = .object ms ∧ keys.map (member? ms) = values.map some) ∨
      v = .array values ∧ keys.length = values.length := by
  unfold Holds at h
  split at h
  · next ms => exact Or.inl ⟨ms, rfl, h⟩
  · next items => exact Or.inr ⟨by rw [h.1], h.2⟩
  · cases h

theorem mapM_eq_some_iff {α β : Type} {f : α → Option β} {as : List α} {bs : List β} :
    as.mapM f = some bs ↔ as.map f = bs.map some := by
  induction as generalizing bs with
  | nil => cases bs <;> simp
  | cons a as ih =>
    simp only [List.mapM_cons, Option.bind_eq_bind, Option.bind_eq_some_iff, Option.pure_def,
      Option.some.injEq, ih, List.map_cons]
    constructor
    · rintro ⟨b, hb, bs, hbs, rfl⟩
      rw [hb, hbs, List.map_cons]
    · intro h
      obtain ⟨b, bs, rfl, hb, hbs⟩ := List.map_eq_cons_iff.mp h.symm
      exact ⟨b, hb.symm, bs, hbs.symm, rfl⟩

/-- The values of a record are those it holds. -/
theorem values?_eq_some_iff {keys : List String} {values : List Json} :
    v.values? keys = some values ↔ v.Holds keys values := by
  cases v with
  | object members => exact mapM_eq_some_iff
  | array items =>
    simp only [values?, Holds, Option.ite_none_right_eq_some, Option.some.injEq]
    constructor
    · rintro ⟨hlength, rfl⟩
      exact ⟨rfl, hlength.symm⟩
    · rintro ⟨rfl, hlength⟩
      exact ⟨hlength.symm, rfl⟩
  | null | bool | number | string => simp [values?, Holds]

/-- **A record is read from what holds values that are read as its parts.** -/
theorem record?_eq_some_iff {α β : Type} {read : Json → Option α} {keys : List String}
    {make : List α → Option β} {parts : β → List α}
    (hmake : ∀ {as b}, make as = some b ↔ as = parts b) {b : β} :
    v.record? read keys make = some b ↔
      ∃ values, v.Holds keys values ∧ values.map read = (parts b).map some := by
  simp only [record?, Option.bind_eq_bind, Option.bind_eq_some_iff, values?_eq_some_iff, hmake,
    mapM_eq_some_iff, exists_eq_right]

theorem map_natural?_eq_iff {values : List Json} {ns : List Nat} :
    values.map natural? = ns.map some ↔
      (∀ n ∈ ns, n < Size.bound) ∧ values = ns.map natural := by
  induction ns generalizing values with
  | nil => simp
  | cons n ns ih =>
    cases values with
    | nil => simp
    | cons value values =>
      simp only [List.map_cons, List.cons.injEq, natural?_eq_some_iff, ih, List.forall_mem_cons]
      constructor
      · rintro ⟨⟨hn, rfl⟩, hns, rfl⟩
        exact ⟨⟨hn, hns⟩, rfl, rfl⟩
      · rintro ⟨⟨hn, hns⟩, rfl, rfl⟩
        exact ⟨⟨hn, rfl⟩, hns, rfl⟩

/-- A record of numbers is read from what holds them, if they are sizes. -/
theorem record?_natural?_eq_some_iff {β : Type} {keys : List String} {make : List Nat → Option β}
    {parts : β → List Nat} (hmake : ∀ {ns b}, make ns = some b ↔ ns = parts b) {b : β} :
    v.record? natural? keys make = some b ↔
      (∀ n ∈ parts b, n < Size.bound) ∧ v.Holds keys ((parts b).map natural) := by
  rw [record?_eq_some_iff hmake]
  constructor
  · rintro ⟨values, hholds, hvalues⟩
    obtain ⟨hfits, rfl⟩ := map_natural?_eq_iff.mp hvalues
    exact ⟨hfits, hholds⟩
  · rintro ⟨hfits, hholds⟩
    exact ⟨_, hholds, map_natural?_eq_iff.mpr ⟨hfits, rfl⟩⟩

end Json

open Json (member? natural)

/-! ### Points, spans and symbol positions -/

/-- The numbers of a point are sizes. -/
def Point.Fits (p : Point) : Prop :=
  p.byte < Size.bound ∧ p.row < Size.bound ∧ p.column < Size.bound

/-- The value is a form of the point. -/
def Point.Form (v : Json) (p : Point) : Prop :=
  v.Holds ["byte", "row", "column"] [natural p.byte, natural p.row, natural p.column]

theorem Point.ofList?_eq_some_iff {ns : List Nat} {p : Point} :
    Point.ofList? ns = some p ↔ ns = [p.byte, p.row, p.column] := by
  cases p
  fun_cases ofList? ns <;> grind

theorem Point.ofJson?_eq_some_iff {v : Json} {p : Point} :
    Point.ofJson? v = some p ↔ p.Fits ∧ Point.Form v p := by
  rw [ofJson?, Json.record?_natural?_eq_some_iff ofList?_eq_some_iff]
  simp [Fits, Form]

/-- The numbers of a span are sizes. -/
def Span.Fits (s : Span) : Prop := s.start.Fits ∧ s.stop.Fits

/-- The value is a form of the span. -/
def Span.Form (v : Json) (s : Span) : Prop :=
  ∃ start stop, v.Holds ["start", "end"] [start, stop] ∧ Point.Form start s.start ∧
    Point.Form stop s.stop

theorem Span.ofList?_eq_some_iff {ps : List Point} {s : Span} :
    Span.ofList? ps = some s ↔ ps = [s.start, s.stop] := by
  cases s
  fun_cases ofList? ps <;> grind

theorem Span.ofJson?_eq_some_iff {v : Json} {s : Span} :
    Span.ofJson? v = some s ↔ s.Fits ∧ Span.Form v s := by
  rw [ofJson?, Json.record?_eq_some_iff ofList?_eq_some_iff]
  simp only [List.map_cons, List.map_nil, List.map_eq_cons_iff, List.map_eq_nil_iff,
    Point.ofJson?_eq_some_iff]
  constructor
  · rintro ⟨_, hholds, start, _, rfl, ⟨hstart, hstartForm⟩, stop, _, rfl, ⟨hstop, hstopForm⟩, rfl⟩
    exact ⟨⟨hstart, hstop⟩, start, stop, hholds, hstartForm, hstopForm⟩
  · rintro ⟨⟨hstart, hstop⟩, start, stop, hholds, hstartForm, hstopForm⟩
    exact ⟨_, hholds, start, _, rfl, ⟨hstart, hstartForm⟩, stop, _, rfl, ⟨hstop, hstopForm⟩, rfl⟩

/-- The numbers of a symbol position are sizes. -/
def SymbolIndex.Fits (i : SymbolIndex) : Prop := i.space < Size.bound ∧ i.position < Size.bound

/-- The value is a form of the symbol position. -/
def SymbolIndex.Form (v : Json) (i : SymbolIndex) : Prop :=
  v.Holds ["namespace_idx", "symbol_idx"] [natural i.space, natural i.position]

theorem SymbolIndex.ofList?_eq_some_iff {ns : List Nat} {i : SymbolIndex} :
    SymbolIndex.ofList? ns = some i ↔ ns = [i.space, i.position] := by
  cases i
  fun_cases ofList? ns <;> grind

theorem SymbolIndex.ofJson?_eq_some_iff {v : Json} {i : SymbolIndex} :
    SymbolIndex.ofJson? v = some i ↔ i.Fits ∧ SymbolIndex.Form v i := by
  rw [ofJson?, Json.record?_natural?_eq_some_iff ofList?_eq_some_iff]
  simp [Fits, Form]

/-- The value is a form of a symbol position that may be missing. -/
def SymbolIndex.OptionForm (v : Json) : Option SymbolIndex → Prop
  | none => v = .null
  | some i => SymbolIndex.Form v i

theorem SymbolIndex.optionOfJson?_eq_some_iff {v : Json} {symbol : Option SymbolIndex} :
    SymbolIndex.optionOfJson? v = some symbol ↔
      (∀ i, symbol = some i → i.Fits) ∧ SymbolIndex.OptionForm v symbol := by
  unfold optionOfJson?
  split
  · cases symbol <;> simp [OptionForm, Form, Json.Holds]
  · next hnull =>
    cases symbol with
    | none => simpa [OptionForm] using hnull
    | some i => simp [OptionForm, ofJson?_eq_some_iff]

/-! ### Nodes -/

namespace Node

/-- The keys of a node after its kind. -/
def keys : Node → List String
  | .scope _ => ["range"]
  | .imported .. => ["range", "name"]
  | .definition .. | .reference .. => ["range", "name", "symbol_id"]

/-- The values are forms of the members of the node after its kind. -/
def HasValues : Node → List Json → Prop
  | .scope span, [range] => Span.Form range span
  | .imported span name, [range, text] => Span.Form range span ∧ text = .string name
  | .definition span name symbol, [range, text, index]
  | .reference span name symbol, [range, text, index] =>
      Span.Form range span ∧ text = .string name ∧ SymbolIndex.OptionForm index symbol
  | _, _ => False

/-- The numbers of a node are sizes. -/
def Fits (n : Node) : Prop := n.span.Fits ∧ ∀ i, n.symbol? = some i → i.Fits

/-- The value is a form of the node. -/
inductive Form : Json → Node → Prop
  /-- All members; in an array the kind comes first. -/
  | full {v : Json} {n : Node} {values : List Json}
      (h : v.Holds ("kind" :: n.keys) (.string n.kind :: values)) (hvalues : n.HasValues values) :
      Form v n
  /-- An object without a symbol position, which then is a missing one. -/
  | withoutSymbol {ms : List (String × Json)} {n : Node} {range text : Json}
      (h : (Json.object ms).Holds ["kind", "range", "name"] [.string n.kind, range, text])
      (habsent : member? ms "symbol_id" = none) (hvalues : n.HasValues [range, text, .null]) :
      Form (.object ms) n

theorem HasValues.length_eq {n : Node} {values : List Json} (h : n.HasValues values) :
    n.keys.length = values.length := by
  unfold HasValues at h
  split at h
  case h_5 => cases h
  all_goals rfl

theorem HasValues.symbol_mem_keys {n : Node} {range text index : Json}
    (h : n.HasValues [range, text, index]) : "symbol_id" ∈ n.keys := by
  have hlength := h.length_eq
  cases n <;> simp [keys] at hlength ⊢

theorem ofValues?_eq_some_iff {kind : String} {values : List Json} {n : Node} :
    ofValues? kind values = some n ↔ kind = n.kind ∧ n.Fits ∧ n.HasValues values := by
  constructor
  · intro h
    unfold ofValues? at h
    split at h <;> simp only [Option.bind_eq_bind, Option.bind_eq_some_iff,
      Span.ofJson?_eq_some_iff, Json.string?_eq_some_iff, SymbolIndex.optionOfJson?_eq_some_iff,
      Option.pure_def, Option.some.injEq, reduceCtorEq] at h
    · obtain ⟨span, ⟨hfits, hspan⟩, rfl⟩ := h
      exact ⟨rfl, ⟨hfits, fun i hi => nomatch hi⟩, hspan⟩
    · obtain ⟨span, ⟨hfits, hspan⟩, name, hname, rfl⟩ := h
      exact ⟨rfl, ⟨hfits, fun i hi => nomatch hi⟩, hspan, hname⟩
    · obtain ⟨span, ⟨hfits, hspan⟩, name, hname, symbol, ⟨hsizes, hsymbol⟩, rfl⟩ := h
      exact ⟨rfl, ⟨hfits, hsizes⟩, hspan, hname, hsymbol⟩
    · obtain ⟨span, ⟨hfits, hspan⟩, name, hname, symbol, ⟨hsizes, hsymbol⟩, rfl⟩ := h
      exact ⟨rfl, ⟨hfits, hsizes⟩, hspan, hname, hsymbol⟩
  · rintro ⟨rfl, ⟨hfits, hsizes⟩, hvalues⟩
    unfold HasValues at hvalues
    split at hvalues
    · simp [ofValues?, kind, span, Span.ofJson?_eq_some_iff.mpr ⟨hfits, hvalues⟩]
    · obtain ⟨hspan, rfl⟩ := hvalues
      simp [ofValues?, kind, span, Span.ofJson?_eq_some_iff.mpr ⟨hfits, hspan⟩, Json.string?]
    · obtain ⟨hspan, rfl, hsymbol⟩ := hvalues
      simp [ofValues?, kind, span, symbol?, Span.ofJson?_eq_some_iff.mpr ⟨hfits, hspan⟩,
        Json.string?, SymbolIndex.optionOfJson?_eq_some_iff.mpr ⟨hsizes, hsymbol⟩]
    · obtain ⟨hspan, rfl, hsymbol⟩ := hvalues
      simp [ofValues?, kind, span, symbol?, Span.ofJson?_eq_some_iff.mpr ⟨hfits, hspan⟩,
        Json.string?, SymbolIndex.optionOfJson?_eq_some_iff.mpr ⟨hsizes, hsymbol⟩]
    · cases hvalues

/-- An object is read as the array of its members. -/
theorem ofMembers?_eq_ofValues? {ms : List (String × Json)} {n : Node} {values : List Json}
    (h : n.keys.map (member? ms) = values.map some) :
    ofMembers? n.kind ms = ofValues? n.kind values := by
  -- the members are taken off one by one, and the kinds differ only in where this ends
  cases n <;> obtain ⟨range, _, rfl, hrange, h⟩ := List.map_eq_cons_iff.mp h.symm
  case scope =>
    obtain rfl := List.map_eq_nil_iff.mp h
    simp [ofMembers?, ofValues?, kind, ← hrange]
  all_goals obtain ⟨text, _, rfl, htext, h⟩ := List.map_eq_cons_iff.mp h
  case imported =>
    obtain rfl := List.map_eq_nil_iff.mp h
    simp [ofMembers?, ofValues?, kind, ← hrange, ← htext]
  all_goals
    obtain ⟨index, _, rfl, hindex, h⟩ := List.map_eq_cons_iff.mp h
    obtain rfl := List.map_eq_nil_iff.mp h
    simp [ofMembers?, ofValues?, kind, ← hrange, ← htext, ← hindex]

/-- In an object of which the symbol position is missing, it is read as `null`. -/
theorem ofMembers?_without_symbol {ms : List (String × Json)} {n : Node} {range text : Json}
    (hrange : member? ms "range" = some range) (htext : member? ms "name" = some text)
    (habsent : member? ms "symbol_id" = none) (hkeys : "symbol_id" ∈ n.keys) :
    ofMembers? n.kind ms = ofValues? n.kind [range, text, .null] := by
  cases n <;> simp [keys] at hkeys
  · simp [ofMembers?, ofValues?, kind, hrange, htext, habsent]
  · simp [ofMembers?, ofValues?, kind, hrange, htext, habsent]

theorem members_or_absent {ms : List (String × Json)} {range text : Json}
    (hrange : member? ms "range" = some range) (htext : member? ms "name" = some text) :
    (∃ values : List Json, ["range", "name", "symbol_id"].map (member? ms) = values.map some) ∨
      member? ms "symbol_id" = none := by
  cases hindex : member? ms "symbol_id" with
  | none => exact Or.inr rfl
  | some index => exact Or.inl ⟨[range, text, index], by simp [hrange, htext, hindex]⟩

/-- What is read from an object has all its members there, but perhaps no symbol position. -/
theorem exists_members {kind : String} {ms : List (String × Json)} {n : Node}
    (h : ofMembers? kind ms = some n) : kind = n.kind ∧
      ((∃ values : List Json, n.keys.map (member? ms) = values.map some) ∨
        member? ms "symbol_id" = none ∧ "symbol_id" ∈ n.keys ∧
          ∃ range text, member? ms "range" = some range ∧ member? ms "name" = some text) := by
  unfold ofMembers? at h
  split at h <;> simp only [Option.bind_eq_bind, Option.bind_eq_some_iff, Option.pure_def,
    Option.some.injEq, reduceCtorEq] at h
  · obtain ⟨range, hrange, span, -, rfl⟩ := h
    exact ⟨rfl, Or.inl ⟨[range], by simp [keys, hrange]⟩⟩
  · obtain ⟨range, hrange, span, -, text, htext, name, -, rfl⟩ := h
    exact ⟨rfl, Or.inl ⟨[range, text], by simp [keys, hrange, htext]⟩⟩
  · obtain ⟨range, hrange, span, -, text, htext, name, -, symbol, -, rfl⟩ := h
    exact ⟨rfl, (members_or_absent hrange htext).imp_right
      fun habsent => ⟨habsent, by simp [keys], range, text, hrange, htext⟩⟩
  · obtain ⟨range, hrange, span, -, text, htext, name, -, symbol, -, rfl⟩ := h
    exact ⟨rfl, (members_or_absent hrange htext).imp_right
      fun habsent => ⟨habsent, by simp [keys], range, text, hrange, htext⟩⟩

theorem ofJson?_object {kind : String} {ms : List (String × Json)}
    (h : member? ms "kind" = some (.string kind)) : ofJson? (.object ms) = ofMembers? kind ms := by
  simp [ofJson?, h, Json.string?]

theorem fits_and_form_of_ofJson? {v : Json} {n : Node} (h : ofJson? v = some n) :
    n.Fits ∧ Form v n := by
  unfold ofJson? at h
  split at h
  · next ms =>
    simp only [Option.bind_eq_bind, Option.bind_eq_some_iff, Json.string?_eq_some_iff] at h
    obtain ⟨_, hkind, kind, rfl, hread⟩ := h
    obtain ⟨rfl, ⟨values, hmembers⟩ | ⟨habsent, hkeys, range, text, hrange, htext⟩⟩ :=
      exists_members hread
    · rw [ofMembers?_eq_ofValues? hmembers] at hread
      obtain ⟨-, hfits, hvalues⟩ := ofValues?_eq_some_iff.mp hread
      exact ⟨hfits, .full (by simp [Json.Holds, hkind, hmembers]) hvalues⟩
    · rw [ofMembers?_without_symbol hrange htext habsent hkeys] at hread
      obtain ⟨-, hfits, hvalues⟩ := ofValues?_eq_some_iff.mp hread
      exact ⟨hfits, .withoutSymbol (by simp [Json.Holds, hkind, hrange, htext]) habsent hvalues⟩
  · next kind values =>
    obtain ⟨rfl, hfits, hvalues⟩ := ofValues?_eq_some_iff.mp h
    exact ⟨hfits, .full ⟨rfl, congrArg (· + 1) hvalues.length_eq⟩ hvalues⟩
  · cases h

theorem Form.ofJson?_eq {v : Json} {n : Node} (h : Form v n) (hfits : n.Fits) :
    Node.ofJson? v = some n := by
  cases h with
  | full h hvalues =>
    have hread := ofValues?_eq_some_iff.mpr ⟨rfl, hfits, hvalues⟩
    obtain ⟨ms, rfl, hmembers⟩ | ⟨rfl, -⟩ := h.cases
    · obtain ⟨hkind, hmembers⟩ := List.cons.inj hmembers
      rwa [ofJson?_object hkind, ofMembers?_eq_ofValues? hmembers]
    · exact hread
  | withoutSymbol h habsent hvalues =>
    have hread := ofValues?_eq_some_iff.mpr ⟨rfl, hfits, hvalues⟩
    simp only [Json.Holds, List.map_cons, List.map_nil, List.cons.injEq] at h
    obtain ⟨hkind, hrange, htext, -⟩ := h
    rwa [ofJson?_object hkind,
      ofMembers?_without_symbol hrange htext habsent hvalues.symbol_mem_keys]

/-- **What is read as a node are its forms.** -/
theorem ofJson?_eq_some_iff {v : Json} {n : Node} : ofJson? v = some n ↔ n.Fits ∧ Form v n :=
  ⟨fits_and_form_of_ofJson?, fun h => h.2.ofJson?_eq h.1⟩

/-! ### What is written -/

end Node

theorem Point.form_toJson (p : Point) : Point.Form p.toJson p := by
  simp [Form, toJson, Json.Holds, member?]

theorem Span.form_toJson (s : Span) : Span.Form s.toJson s :=
  ⟨s.start.toJson, s.stop.toJson, by simp [toJson, Json.Holds, member?], s.start.form_toJson,
    s.stop.form_toJson⟩

theorem SymbolIndex.form_optionToJson (symbol : Option SymbolIndex) :
    SymbolIndex.OptionForm (SymbolIndex.optionToJson symbol) symbol := by
  cases symbol with
  | none => rfl
  | some i => simp [OptionForm, Form, optionToJson, toJson, Json.Holds, member?]

namespace Node

/-- What is written of a node after its kind. -/
def values : Node → List Json
  | .scope span => [span.toJson]
  | .imported span name => [span.toJson, .string name]
  | .definition span name symbol | .reference span name symbol =>
      [span.toJson, .string name, SymbolIndex.optionToJson symbol]

theorem holds_toJson (n : Node) :
    n.toJson.Holds ("kind" :: n.keys) (.string n.kind :: n.values) := by
  cases n <;> simp [toJson, keys, values, Json.Holds, member?]

theorem hasValues_values (n : Node) : n.HasValues n.values := by
  cases n with
  | scope span => exact span.form_toJson
  | imported span name => exact ⟨span.form_toJson, rfl⟩
  | definition span name symbol =>
    exact ⟨span.form_toJson, rfl, SymbolIndex.form_optionToJson symbol⟩
  | reference span name symbol =>
    exact ⟨span.form_toJson, rfl, SymbolIndex.form_optionToJson symbol⟩

/-- **What is written is a form of the node.** -/
theorem form_toJson (n : Node) : Form n.toJson n := .full n.holds_toJson n.hasValues_values

/-- **Every form of a node is read as the node, and the node is written in one form.**  A node whose
numbers are sizes is read back from what is written for it.  What is read from any value is such a
node, and it is read again from what is then written; and the values it is read from are just its
forms, so that arrays for points, spans and symbol positions, further members and a missing symbol
position all come to the one form that is written. -/
theorem json_roundTrip :
    (∀ n : Node, n.Fits → ofJson? n.toJson = some n) ∧
    (∀ v n, ofJson? v = some n → n.Fits ∧ ofJson? n.toJson = some n) ∧
    (∀ v n, ofJson? v = some n ↔ n.Fits ∧ Form v n) := by
  refine ⟨fun n hfits => n.form_toJson.ofJson?_eq hfits, fun v n hread => ?_,
    fun v n => ofJson?_eq_some_iff⟩
  obtain ⟨hfits, -⟩ := ofJson?_eq_some_iff.mp hread
  exact ⟨hfits, n.form_toJson.ofJson?_eq hfits⟩

/-- A definition with the greatest offset, before which its span ends.  It is read from an object
with its kind at the end and a further member, without a symbol position, and with arrays for
its span and one of its points. -/
theorem json_roundTrip_generous :
    let n : Node := .definition ⟨⟨18446744073709551615, 0, 2⟩, ⟨0, 3, 1⟩⟩ "\"a" none
    let v : Json := .object [("note", .null), ("name", .string "\"a"),
      ("range", .array [.array [natural 18446744073709551615, natural 0, natural 2],
        .object [("column", natural 1), ("row", natural 3), ("byte", natural 0)]]),
      ("kind", .string "def")]
    ofJson? v = some n ∧ n.Fits ∧ ofJson? n.toJson = some n ∧ Form v n := by
  intro n v
  have hread : ofJson? v = some n := by decide +kernel
  obtain ⟨hwritten, hagain, hforms⟩ := json_roundTrip
  obtain ⟨hfits, -⟩ := hagain v n hread
  exact ⟨hread, hfits, hwritten n hfits, ((hforms v n).mp hread).2⟩

end Node
end NameBinding
