import NameBinding.Proofs.Addresses
import NameBinding.Proofs.Frame

/-!
# What names denote, by the facts

The look-up of a reference compares sizes and starts, and where these agree the
positions of nodes.  Positions depend on the order of the stream.  But if scopes are
nested or disjoint, no reference is empty and no two declarations of one name start
together, then sizes and starts always decide, and what a reference denotes can be
said of the facts of the graph, without positions.

## Main definitions

* `Fact.Untied` — nothing is left to positions.
* `Fact.Inward` — the walk towards a span, from address to address.
* `Fact.Denotes` — what a use at an address means.

## Main results

* `Fact.Inward.unique`, `Fact.Denotes.unique` — **facts that are untied decide what is
  denoted.**
* `Realizes.meaning_cases` — **a graph binds its references as its facts say.**
-/

namespace NameBinding
namespace Fact

/-! ### Untied facts -/

/-- Nothing is left to positions: scopes are nested or disjoint, and bytes determine
them; a start determines the declaration of a name. -/
structure Untied (facts : List Fact) : Prop where
  ordered : ∀ s a, .scope (s :: a) ∈ facts → s.start.byte ≤ s.stop.byte
  nested : ∀ s a t b, .scope (s :: a) ∈ facts → .scope (t :: b) ∈ facts →
    s.contains t = true ∨ t.contains s = true ∨
      s.stop.byte ≤ t.start.byte ∨ t.stop.byte ≤ s.start.byte
  eq_of_bytes : ∀ s a t b, .scope (s :: a) ∈ facts → .scope (t :: b) ∈ facts →
    s.start.byte = t.start.byte → s.stop.byte = t.stop.byte → s = t
  eq_of_start : ∀ a m b n, .declaration a m ∈ facts → .declaration b n ∈ facts →
    m.name? = n.name? → m.span.start.byte = n.span.start.byte → m = n

/-- The spans of the scopes directly inside the scope at an address. -/
def innerSpans (facts : List Fact) (a : Address) : List Span :=
  facts.filterMap fun
    | .scope (s :: b) => if b = a then some s else none
    | _ => none

theorem mem_innerSpans {facts : List Fact} {a : Address} {s : Span} :
    s ∈ innerSpans facts a ↔ .scope (s :: a) ∈ facts := by
  rw [innerSpans, List.mem_filterMap]
  constructor
  · rintro ⟨f, hf, hs⟩
    split at hs
    · next t b =>
      split at hs
      · next hb =>
        cases hs
        rwa [← hb]
      · cases hs
    · cases hs
  · intro h
    exact ⟨_, h, by simp⟩

/-! ### The walk inward -/

/-- Going from the scope at an address into the smallest one around the span, as long
as there is one, ends at the second address. -/
inductive Inward (facts : List Fact) (span : Span) : Address → Address → Prop
  | stay {a : Address} (h : ∀ s ∈ innerSpans facts a, s.contains span = false) :
      Inward facts span a a
  | step {a b : Address} {s : Span} (h : Span.IsInnermost (innerSpans facts a) span s)
      (rest : Inward facts span (s :: a) b) : Inward facts span a b

theorem Inward.unique {facts : List Fact} (h : Untied facts) {span : Span} {a b b' : Address}
    (hb : Inward facts span a b) (hb' : Inward facts span a b') : b = b' := by
  induction hb with
  | stay hnone =>
    cases hb' with
    | stay _ => rfl
    | step hs _ =>
      have hno := hnone _ hs.mem
      rw [hs.contains] at hno
      cases hno
  | @step a b s hs _ ih =>
    cases hb' with
    | stay hnone =>
      have hno := hnone _ hs.mem
      rw [hs.contains] at hno
      cases hno
    | @step _ _ t ht hrest =>
      -- two smallest scopes contain each other
      have hbytes := Span.bytes_eq_of_contains (ht.least s hs.mem hs.contains)
        (hs.least t ht.mem ht.contains)
      obtain rfl := h.eq_of_bytes s a t a (mem_innerSpans.mp hs.mem) (mem_innerSpans.mp ht.mem)
        hbytes.1 hbytes.2
      exact ih hrest

/-! ### Candidates and choice -/

/-- The node is declared at the address, and a use of the name that expects the symbol
class could mean it. -/
def Candidate (facts : List Fact) (name : String) (symbol : Option SymbolIndex) (a : Address)
    (n : Node) : Prop :=
  .declaration a n ∈ facts ∧ n.name? = some name ∧ Graph.compatible symbol n.symbol? = true

/-- Of the nodes `P`, a use that starts at `start` means `n`: the last one that starts
at or before it or, if all of them start after it, the first one. -/
structure Chosen (start : Nat) (P : Node → Prop) (n : Node) : Prop where
  candidate : P n
  before : (∃ m, P m ∧ m.span.start.byte ≤ start) → n.span.start.byte ≤ start ∧
    ∀ m, P m → m.span.start.byte ≤ start → m.span.start.byte ≤ n.span.start.byte
  after : (∀ m, P m → start < m.span.start.byte) →
    ∀ m, P m → n.span.start.byte ≤ m.span.start.byte

/-- All choices start together. -/
theorem Chosen.start_eq {start : Nat} {P : Node → Prop} {m n : Node} (hm : Chosen start P m)
    (hn : Chosen start P n) : m.span.start.byte = n.span.start.byte := by
  by_cases hex : ∃ c, P c ∧ c.span.start.byte ≤ start
  · obtain ⟨hms, hmlast⟩ := hm.before hex
    obtain ⟨hns, hnlast⟩ := hn.before hex
    have h1 := hmlast n hn.candidate hns
    have h2 := hnlast m hm.candidate hms
    omega
  · have hall : ∀ c, P c → start < c.span.start.byte := by
      intro c hc
      exact Nat.lt_of_not_le fun hle => hex ⟨c, hc, hle⟩
    have h1 := hm.after hall n hn.candidate
    have h2 := hn.after hall m hm.candidate
    omega

/-- A use at an address means the choice among the candidates there, or, if there are
none, what it would mean one scope further out. -/
inductive Denotes (facts : List Fact) (start : Nat) (name : String)
    (symbol : Option SymbolIndex) : Address → Node → Prop
  | here {a : Address} {n : Node} (h : Chosen start (Candidate facts name symbol a) n) :
      Denotes facts start name symbol a n
  | outside {s : Span} {a : Address} {n : Node}
      (hnone : ∀ m, ¬ Candidate facts name symbol (s :: a) m)
      (h : Denotes facts start name symbol a n) : Denotes facts start name symbol (s :: a) n

theorem Denotes.unique {facts : List Fact} (h : Untied facts) {start : Nat} {name : String}
    {symbol : Option SymbolIndex} {a : Address} {m n : Node}
    (hm : Denotes facts start name symbol a m) (hn : Denotes facts start name symbol a n) :
    m = n := by
  induction hm with
  | @here a m hm =>
    cases hn with
    | here hn =>
      obtain ⟨hmf, hmn, -⟩ := hm.candidate
      obtain ⟨hnf, hnn, -⟩ := hn.candidate
      exact h.eq_of_start a m a n hmf hnf (hmn.trans hnn.symm) (hm.start_eq hn)
    | outside hnone _ => exact absurd hm.candidate (hnone m)
  | outside hnone _ ih =>
    cases hn with
    | here hn => exact absurd hn.candidate (hnone n)
    | outside _ hn => exact ih hn

/-- What the node of a reference means: the walk inward from the root decides where the
look-up starts. -/
def Means (facts : List Fact) : Node → Node → Prop
  | .reference span name symbol, n =>
      ∃ a, Inward facts span [] a ∧ Denotes facts span.start.byte name symbol a n
  | _, _ => False

/-- **Facts that are untied decide what a reference means.** -/
theorem Means.unique {facts : List Fact} (h : Untied facts) {r m n : Node}
    (hm : Means facts r m) (hn : Means facts r n) : m = n := by
  cases r with
  | reference span name symbol =>
    obtain ⟨a, ha, hm⟩ := hm
    obtain ⟨b, hb, hn⟩ := hn
    obtain rfl := ha.unique h hb
    exact hm.unique h hn
  | scope | definition | imported => cases hm

end Fact

namespace Graph.Realizes

variable {top : Span} {facts : List Fact} {g : Graph}

/-! ### Scopes -/

/-- The children of a scope are those the facts put there. -/
theorem isChild_iff (h : g.Realizes top facts) {p : Nat} {a : Address} (hp : g.At p a)
    {s : Span} : (∃ i, g.IsChild p i ∧ g.spanOf i = s) ↔ s ∈ Fact.innerSpans facts a := by
  rw [Fact.mem_innerSpans]
  have hscope := h.scopes (s :: a)
  simp only [reduceCtorEq, false_or] at hscope
  rw [← hscope]
  constructor
  · rintro ⟨i, hi, rfl⟩
    exact ⟨i, .child hp hi⟩
  · rintro ⟨i, hi⟩
    obtain ⟨q, hq, hiq, hspan⟩ := hi.of_cons
    obtain rfl := h.structured.at_position_unique hp hq
    exact ⟨i, hiq, hspan⟩

theorem scopesOrdered (h : g.Realizes top facts) (hu : Fact.Untied facts) : g.ScopesOrdered := by
  intro i s hne hs
  obtain ⟨p, hp⟩ := h.structured.exists_edge hne hs rfl
  obtain ⟨-, -, t, ht, -⟩ := h.structured.attached _ hp rfl
  obtain ⟨a, ha⟩ := h.structured.exists_at p t ht
  have hmem := (h.isChild_iff ha).mp ⟨i, hp, spanOf_eq hs⟩
  exact hu.ordered s a (Fact.mem_innerSpans.mp hmem)

/-- The closest child is the smallest scope around the span. -/
theorem isInnermost_of_closestChild (h : g.Realizes top facts) (hu : Fact.Untied facts)
    {span : Span} (hspan : span.start.byte < span.stop.byte) {p child : Nat} {a : Address}
    (hp : g.At p a) (hc : g.ClosestChild p span child) :
    Span.IsInnermost (Fact.innerSpans facts a) span (g.spanOf child) := by
  have hmem := (h.isChild_iff hp).mp ⟨child, hc.isChild, rfl⟩
  refine ⟨hmem, hc.contains, fun u hu' hcontains => ?_⟩
  obtain ⟨other, hother, rfl⟩ := (h.isChild_iff hp).mpr hu'
  have hwidth := hc.least other hother hcontains
  have hnested := hu.nested _ a _ a (Fact.mem_innerSpans.mp hmem) (Fact.mem_innerSpans.mp hu')
  have hcontains' := hc.contains
  unfold width at hwidth
  rw [Span.contains_iff] at hcontains hcontains' ⊢
  rw [Span.contains_iff, Span.contains_iff] at hnested
  -- both contain the span, so they are nested, and the child is not the larger one
  omega

theorem inward_of_descendsTo (h : g.Realizes top facts) (hu : Fact.Untied facts) {span : Span}
    (hspan : span.start.byte < span.stop.byte) {p last : Nat} (hd : g.DescendsTo span p last) :
    ∀ {a : Address}, g.At p a → ∃ b, g.At last b ∧ Fact.Inward facts span a b := by
  induction hd with
  | stay hnone =>
    intro a ha
    refine ⟨a, ha, .stay fun s hs => ?_⟩
    obtain ⟨i, hi, rfl⟩ := (h.isChild_iff ha).mpr hs
    exact hnone i hi
  | step hc _ ih =>
    intro a ha
    obtain ⟨b, hb, hin⟩ := ih (.child ha hc.isChild)
    exact ⟨b, hb, .step (h.isInnermost_of_closestChild hu hspan ha hc) hin⟩

/-! ### Declarations -/

/-- The candidates in a scope are those the facts put there. -/
theorem candidate_iff (h : g.Realizes top facts) {p : Nat} {a : Address} (hp : g.At p a)
    {name : String} {symbol : Option SymbolIndex} {n : Node} :
    (∃ w, g.node? w = some n ∧ g.Candidate p name symbol w) ↔
      Fact.Candidate facts name symbol a n := by
  rw [Fact.Candidate, ← h.declarations a n]
  constructor
  · rintro ⟨w, hw, ⟨span, actual, hn, hdef, hcompatible⟩ | ⟨span, hn, himp⟩⟩
    · obtain rfl : n = .definition span name actual := Option.some.inj (hw.symm.trans hn)
      exact ⟨⟨p, w, _, hp, rfl, hdef, hw⟩, rfl, compatible_iff.mpr hcompatible⟩
    · obtain rfl : n = .imported span name := Option.some.inj (hw.symm.trans hn)
      exact ⟨⟨p, w, _, hp, rfl, himp, hw⟩, rfl, by cases symbol <;> rfl⟩
  · rintro ⟨⟨q, w, kind, hq, hkind, he, hw⟩, hname, hcompatible⟩
    obtain rfl := h.structured.at_position_unique hp hq
    obtain ⟨-, n', hn', hattach⟩ : _ ∧ ∃ n', g.node? w = some n' ∧ _ :=
      h.structured.source_of_edge he (Relation.binds_of_declares _ hkind)
    obtain rfl : n = n' := Option.some.inj (hw.symm.trans hn')
    refine ⟨w, hw, ?_⟩
    cases n with
    | definition span name' actual =>
      cases hattach
      cases hname
      exact Or.inl ⟨span, actual, hw, he, compatible_iff.mp hcompatible⟩
    | imported span name' =>
      cases hattach
      cases hname
      exact Or.inr ⟨span, hw, he⟩
    | scope span =>
      cases hattach
      cases hkind
    | reference => cases hattach

theorem chosen_of_meant (h : g.Realizes top facts) {p : Nat} {a : Address} (hp : g.At p a)
    {start : Nat} {name : String} {symbol : Option SymbolIndex} {w : Nat}
    (hw : g.Meant start (g.Candidate p name symbol) w) :
    ∃ n, g.node? w = some n ∧ Fact.Chosen start (Fact.Candidate facts name symbol a) n := by
  obtain ⟨n, hn, -⟩ := hw.candidate.exists_node
  have hstart : ∀ {v m}, g.node? v = some m → g.startOf v = m.span.start.byte := by
    intro v m hv
    rw [startOf, spanOf_eq hv]
  refine ⟨n, hn, (h.candidate_iff hp).mp ⟨w, hn, hw.candidate⟩, ?_, ?_⟩
  · rintro ⟨m, hm, hms⟩
    obtain ⟨v, hv, hvc⟩ := (h.candidate_iff hp).mpr hm
    obtain ⟨hle, hlast⟩ := hw.before ⟨v, hvc, by rwa [hstart hv]⟩
    rw [hstart hn] at hle
    refine ⟨hle, fun m' hm' hms' => ?_⟩
    obtain ⟨v', hv', hvc'⟩ := (h.candidate_iff hp).mpr hm'
    have hlast' := hlast v' hvc' (by rwa [hstart hv'])
    rw [hstart hn, hstart hv'] at hlast'
    omega
  · intro hall m hm
    obtain ⟨v, hv, hvc⟩ := (h.candidate_iff hp).mpr hm
    have hfirst := hw.after ?_ v hvc
    · rw [hstart hn, hstart hv] at hfirst
      omega
    · intro c hc
      obtain ⟨m', hm', -⟩ := hc.exists_node
      rw [hstart hm']
      exact hall m' ((h.candidate_iff hp).mp ⟨c, hm', hc⟩)

/-! ### References -/

/-- The walk outward from a scope finds what a use at its address denotes. -/
theorem lookup_cases (h : g.Realizes top facts) (span : Span) (name : String)
    (symbol : Option SymbolIndex) {p : Nat} {a : Address} (hp : g.At p a) : ∀ n, p < n →
      (g.lookup span name symbol n p = .ok none ∧
        ∀ m, ¬ Fact.Denotes facts span.start.byte name symbol a m) ∨
      ∃ w m, g.lookup span name symbol n p = .ok (some (g.bindingTo w)) ∧ g.node? w = some m ∧
        Fact.Denotes facts span.start.byte name symbol a m := by
  induction hp with
  | root =>
    intro n hn
    obtain ⟨n, rfl⟩ : ∃ k, n = k + 1 := ⟨n - 1, by omega⟩
    rcases h.structured.lookup_succ span name symbol root n with ⟨heq, hnone⟩ | ⟨w, hw, heq⟩
    · left
      rw [heq, h.structured.parent_root]
      refine ⟨rfl, fun m hm => ?_⟩
      cases hm with
      | here hm =>
        obtain ⟨w, -, hw⟩ := (h.candidate_iff .root).mpr hm.candidate
        exact hnone w hw
    · right
      obtain ⟨m, hm, hchosen⟩ := h.chosen_of_meant .root hw
      exact ⟨w, m, heq, hm, .here hchosen⟩
  | @child q p a hq hchild ih =>
    intro n hn
    obtain ⟨n, rfl⟩ : ∃ k, n = k + 1 := ⟨n - 1, by omega⟩
    have hat := At.child hq hchild
    rcases h.structured.lookup_succ span name symbol p n with ⟨heq, hnone⟩ | ⟨w, hw, heq⟩
    · have hnone' : ∀ m, ¬ Fact.Candidate facts name symbol (g.spanOf p :: a) m := by
        intro m hm
        obtain ⟨w, -, hw⟩ := (h.candidate_iff hat).mpr hm
        exact hnone w hw
      have hlt := (h.structured.isChild_lt hchild).1
      rw [heq, h.structured.parent_eq_ok_iff.mpr hchild]
      rcases ih n (by omega) with ⟨hok, hall⟩ | ⟨w, m, hok, hw, hm⟩
      · left
        refine ⟨hok, fun m hm => ?_⟩
        cases hm with
        | here hm => exact hnone' m hm.candidate
        | outside _ hm => exact hall m hm
      · exact Or.inr ⟨w, m, hok, hw, .outside hnone' hm⟩
    · right
      obtain ⟨m, hm, hchosen⟩ := h.chosen_of_meant hat hw
      exact ⟨w, m, heq, hm, .here hchosen⟩

/-- **A graph binds its references as its facts say.** -/
theorem meaning_cases (h : g.Realizes top facts) (hu : Fact.Untied facts) {i : Nat} {r : Node}
    (hr : g.node? i = some r) (href : r.isReference = true)
    (hspan : r.span.start.byte < r.span.stop.byte) :
    (g.meaning i = none ∧ ∀ m, ¬ Fact.Means facts r m) ∨
      ∃ b m, g.meaning i = some b ∧ g.node? b.node = some m ∧ Fact.Means facts r m := by
  cases r with
  | reference span name symbol =>
    obtain ⟨last, hsmall, hdesc⟩ := h.structured.smallestScope_eq_ok (h.scopesOrdered hu) span
    obtain ⟨a, hat, hin⟩ := h.inward_of_descendsTo hu hspan hdesc .root
    have hbind := bindingFor_eq_lookup hr hsmall
    rcases h.lookup_cases span name symbol hat g.order (h.structured.at_lt hat) with
      ⟨hok, hall⟩ | ⟨w, m, hok, hw, hm⟩
    · left
      refine ⟨by rw [meaning, hbind, hok]; rfl, ?_⟩
      rintro m ⟨b, hb, hm⟩
      obtain rfl := hin.unique hu hb
      exact hall m hm
    · right
      refine ⟨g.bindingTo w, m, by rw [meaning, hbind, hok]; rfl, ?_, a, hin, hm⟩
      rw [node_bindingTo, hw]
  | scope | definition | imported => cases href

end Graph.Realizes
end NameBinding
