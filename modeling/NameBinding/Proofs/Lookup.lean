import NameBinding.Proofs.Descent

/-!
# What a reference denotes

A reference is looked up in the innermost scope around it and then in the parents
of that scope, up to the root.  The first of them that declares a candidate decides,
and among its candidates the one declared last at or before the reference is meant,
or, if all of them come later, the first.

## Main definitions

* `Graph.Outward` — the scopes from a scope to the root.
* `Graph.Candidate` — a declaration of a scope that a reference could mean.
* `Graph.Meant` — of several candidates the one that is meant.

## Main results

* `choose?_spec` — the choice among candidates.
* `Structured.lookup_cases` — the walk from a scope outward.
* `bindingFor_spec` — **the rule of resolution on every graph built from events.**
-/

namespace NameBinding
namespace Graph

/-! ### The scopes around a scope -/

/-- The list holds `scope`, its parent, the parent of that one, and so on to the root. -/
inductive Outward (g : Graph) : Nat → List Nat → Prop
  | root : Outward g root [root]
  | step {scope outer : Nat} {rest : List Nat} (h : g.parent scope = .ok (some outer))
      (hrest : Outward g outer rest) : Outward g scope (scope :: rest)

section Outward

variable {top : Span} {g : Graph}

theorem Structured.exists_outward (h : g.Structured top) :
    ∀ (scope : Nat), (∃ s, g.node? scope = some (.scope s)) → ∃ chain, g.Outward scope chain := by
  intro scope
  -- parents come before their children
  induction scope using Nat.strongRecOn with
  | _ scope ih =>
    rintro ⟨s, hs⟩
    by_cases hroot : scope = root
    · subst hroot
      exact ⟨[root], .root⟩
    · obtain ⟨outer, houter⟩ := h.exists_parent hroot hs
      obtain ⟨hlt, so, hso, -⟩ := h.of_parent houter
      obtain ⟨rest, hrest⟩ := ih outer hlt ⟨so, hso⟩
      exact ⟨scope :: rest, .step houter hrest⟩

/-- Going outward, what the first scope contains is never lost. -/
theorem Structured.outward_contains (h : g.Structured top) {scope : Nat} {chain : List Nat}
    {span : Span} (hout : g.Outward scope chain)
    (hscope : scope = root ∨ (g.spanOf scope).contains span = true) :
    ∀ s ∈ chain, s = root ∨ (g.spanOf s).contains span = true := by
  induction hout with
  | root =>
    intro s hs
    exact Or.inl (List.mem_singleton.mp hs)
  | @step scope outer rest hparent hrest ih =>
    have houter : outer = root ∨ (g.spanOf outer).contains span = true := by
      obtain ⟨hlt, so, hso, hsub⟩ := h.of_parent hparent
      have hne : scope ≠ root := by
        simp only [Graph.root]
        omega
      refine hsub.imp_right fun hsub => ?_
      rw [← show g.spanOf outer = so from spanOf_eq hso] at hsub
      exact Span.contains_trans hsub (hscope.resolve_left hne)
    intro s hs
    rcases List.mem_cons.mp hs with rfl | hs
    · exact hscope
    · exact ih houter s hs

end Outward

/-! ### Candidates -/

/-- The node is a definition or import of the name with an edge that declares it in the
scope; a definition whose class and the expected one are both known has to be of the
same name space. -/
def Candidate (g : Graph) (scope : Nat) (name : String) (symbol : Option SymbolIndex) (w : Nat) :
    Prop :=
  (∃ span actual, g.node? w = some (.definition span name actual) ∧
      (⟨w, scope, .definitionToScope⟩ : Edge) ∈ g.edges ∧
      ∀ a b, symbol = some a → actual = some b → a.space = b.space) ∨
    ∃ span, g.node? w = some (.imported span name) ∧
      (⟨w, scope, .importToScope⟩ : Edge) ∈ g.edges

theorem Candidate.exists_node {g : Graph} {scope w : Nat} {name : String}
    {symbol : Option SymbolIndex} (h : g.Candidate scope name symbol w) :
    ∃ n, g.node? w = some n ∧ n.declaresName = true := by
  rcases h with ⟨_, _, hn, -⟩ | ⟨_, hn, -⟩
  · exact ⟨_, hn, rfl⟩
  · exact ⟨_, hn, rfl⟩

theorem mem_definitionsIn {g : Graph} {scope w : Nat} :
    w ∈ g.definitionsIn scope ↔ (⟨w, scope, .definitionToScope⟩ : Edge) ∈ g.edges := by
  rw [definitionsIn, sortBySpan, List.mem_mergeSort, mem_incoming_beq]

theorem mem_importsIn {g : Graph} {scope w : Nat} :
    w ∈ g.importsIn scope ↔ (⟨w, scope, .importToScope⟩ : Edge) ∈ g.edges := by
  rw [importsIn, sortBySpan, List.mem_mergeSort, mem_incoming_beq]

theorem mem_bindingsIn {g : Graph} {scope w : Nat} :
    w ∈ g.bindingsIn scope ↔ (⟨w, scope, .definitionToScope⟩ : Edge) ∈ g.edges ∨
      (⟨w, scope, .importToScope⟩ : Edge) ∈ g.edges := by
  rw [bindingsIn, List.mem_mergeSort, mem_incoming]
  constructor
  · rintro ⟨⟨_, _, kind⟩, he, rfl, rfl, hk⟩
    cases kind with
    | definitionToScope => exact Or.inl he
    | importToScope => exact Or.inr he
    | scopeToScope | referenceToDefinition | referenceToImport => simp [Relation.declares] at hk
  · rintro (he | he) <;> exact ⟨_, he, rfl, rfl, rfl⟩

theorem compatible_iff {expected actual : Option SymbolIndex} :
    compatible expected actual = true ↔
      ∀ a b, expected = some a → actual = some b → a.space = b.space := by
  cases expected <;> cases actual <;> simp [compatible, SymbolIndex.sameSpace]

/-- Filtering by a test that never fails keeps what passes it. -/
theorem filterAuxM_eq_ok {ε α : Type} {p : α → Except ε Bool} {test : α → Bool} :
    ∀ {as : List α}, (∀ a ∈ as, p a = .ok (test a)) → ∀ acc,
      as.filterAuxM p acc = .ok ((as.filter test).reverse ++ acc) := by
  intro as
  induction as with
  | nil => intro _ acc; rfl
  | cons a as ih =>
    intro h acc
    rw [List.filterAuxM, h a (List.mem_cons_self ..)]
    simp only [bind, Except.bind]
    rw [ih fun b hb => h b (List.mem_cons_of_mem _ hb)]
    cases ht : test a <;> simp [ht]

theorem filterM_eq_ok {ε α : Type} {p : α → Except ε Bool} {test : α → Bool} {as : List α}
    (h : ∀ a ∈ as, p a = .ok (test a)) : as.filterM p = .ok (as.filter test) := by
  rw [List.filterM, filterAuxM_eq_ok h]
  simp [bind, Except.bind, pure, Except.pure]

section Candidates

variable {top : Span} {g : Graph}

/-- In a structured graph only definitions and imports are declared. -/
theorem Structured.couldMean_eq_ok (h : g.Structured top) {scope : Nat} (name : String)
    (symbol : Option SymbolIndex) {w : Nat} (hw : w ∈ g.bindingsIn scope) :
    ∃ b, g.couldMean scope name symbol w = .ok b ∧
      (b = true ↔ g.Candidate scope name symbol w) := by
  rcases mem_bindingsIn.mp hw with hdef | himp
  · obtain ⟨-, n, hn, hkind⟩ : _ ∧ ∃ n, g.node? w = some n ∧ _ :=
      h.source_of_edge hdef rfl
    cases n with
    | definition span name' actual =>
      refine ⟨name' == name && compatible symbol actual, by simp [couldMean, hn], ?_⟩
      rw [Bool.and_eq_true, beq_iff_eq, compatible_iff]
      constructor
      · rintro ⟨rfl, hc⟩
        exact Or.inl ⟨span, actual, hn, hdef, hc⟩
      · rintro (⟨_, _, hn', -, hc⟩ | ⟨_, hn', -⟩) <;> rw [hn] at hn' <;> cases hn'
        exact ⟨rfl, hc⟩
    | scope | imported | reference => simp [Node.attachment] at hkind
  · obtain ⟨-, n, hn, hkind⟩ : _ ∧ ∃ n, g.node? w = some n ∧ _ :=
      h.source_of_edge himp rfl
    cases n with
    | imported span name' =>
      refine ⟨name' == name, by simp [couldMean, hn], ?_⟩
      rw [beq_iff_eq]
      constructor
      · rintro rfl
        exact Or.inr ⟨span, hn, himp⟩
      · rintro (⟨_, _, hn', -⟩ | ⟨_, hn', -⟩) <;> rw [hn] at hn' <;> cases hn'
        rfl
    | scope | definition | reference => simp [Node.attachment] at hkind

/-- The declarations that pass the test are the candidates. -/
theorem Structured.eligibleIn_eq_ok (h : g.Structured top) (scope : Nat) (name : String)
    (symbol : Option SymbolIndex) :
    ∃ ws, g.eligibleIn scope name symbol = .ok ws ∧
      ∀ w, w ∈ ws ↔ g.Candidate scope name symbol w := by
  let test (w : Nat) : Bool := (g.couldMean scope name symbol w).toOption.getD false
  have htest : ∀ w ∈ g.bindingsIn scope, g.couldMean scope name symbol w = .ok (test w) := by
    intro w hw
    obtain ⟨b, hb, -⟩ := h.couldMean_eq_ok name symbol hw
    simp [test, hb, Except.toOption]
  refine ⟨_, filterM_eq_ok htest, fun w => ?_⟩
  rw [List.mem_filter]
  have hdeclared : g.Candidate scope name symbol w → w ∈ g.bindingsIn scope := by
    rintro (⟨_, _, -, hedge, -⟩ | ⟨_, -, hedge⟩)
    · exact mem_bindingsIn.mpr (Or.inl hedge)
    · exact mem_bindingsIn.mpr (Or.inr hedge)
  constructor
  · rintro ⟨hw, ht⟩
    obtain ⟨b, hb, hiff⟩ := h.couldMean_eq_ok name symbol hw
    rw [htest w hw, Except.ok.injEq] at hb
    exact hiff.mp (hb ▸ ht)
  · intro hc
    have hw := hdeclared hc
    obtain ⟨b, hb, hiff⟩ := h.couldMean_eq_ok name symbol hw
    rw [htest w hw, Except.ok.injEq] at hb
    exact ⟨hw, hb ▸ hiff.mpr hc⟩

end Candidates

/-! ### The choice among candidates -/

/-- Of the candidates `P`, a reference that starts at `start` means `w`.  If some
candidate starts at or before it, `w` does too, no such candidate starts later, and
`w` is the first of those that start there; else no candidate starts earlier than
`w`, and `w` is the first of those that start there. -/
structure Meant (g : Graph) (start : Nat) (P : Nat → Prop) (w : Nat) : Prop where
  candidate : P w
  before : (∃ c, P c ∧ g.startOf c ≤ start) → g.startOf w ≤ start ∧
    ∀ c, P c → g.startOf c ≤ start →
      g.startOf c < g.startOf w ∨ (g.startOf c = g.startOf w ∧ w ≤ c)
  after : (∀ c, P c → start < g.startOf c) →
    ∀ c, P c → g.startOf w < g.startOf c ∨ (g.startOf w = g.startOf c ∧ w ≤ c)

theorem choose?_eq_none {g : Graph} {start : Nat} {ws : List Nat} :
    g.choose? start ws = none ↔ ws = [] := by
  constructor
  · intro h
    simp only [choose?] at h
    split at h
    · simp at h
    · simpa using h
  · rintro rfl
    rfl

theorem choose?_spec {g : Graph} {start w : Nat} {ws : List Nat}
    (h : g.choose? start ws = some w) : g.Meant start (· ∈ ws) w := by
  -- what lies at a key is the candidate the key was made from
  have hkey : ∀ k ∈ ws.map fun i => (g.startOf i, i), k.2 ∈ ws ∧ k.1 = g.startOf k.2 := by
    intro k hk
    obtain ⟨i, hi, rfl⟩ := List.mem_map.mp hk
    exact ⟨hi, rfl⟩
  have hmem : ∀ c ∈ ws, (g.startOf c, c) ∈ ws.map fun i => (g.startOf i, i) := by
    intro c hc
    exact List.mem_map.mpr ⟨c, hc, rfl⟩
  simp only [choose?] at h
  split at h
  · next k i hleast =>
    cases h
    obtain ⟨hin, hle⟩ := leastBy?_spec (by simp; omega) (by simp; omega) hleast
    obtain ⟨hin, hstart⟩ := List.mem_filter.mp hin
    obtain ⟨hw, hk⟩ := hkey _ hin
    simp only at hw hk
    simp only [decide_eq_true_eq] at hstart
    refine ⟨hw, fun _ => ⟨by omega, fun c hc hcs => ?_⟩, fun hall => ?_⟩
    · have hthis := hle _ (List.mem_filter.mpr ⟨hmem c hc, by simpa using hcs⟩)
      simp only [Bool.or_eq_true, decide_eq_true_eq, Bool.and_eq_true, beq_iff_eq] at hthis
      omega
    · have := hall _ hw
      omega
  · next hnone =>
    rw [leastBy?_eq_none, List.filter_eq_nil_iff] at hnone
    have hall : ∀ c ∈ ws, start < g.startOf c := by
      intro c hc
      simpa using hnone _ (hmem c hc)
    obtain ⟨⟨k, i⟩, hleast, rfl⟩ := Option.map_eq_some_iff.mp h
    obtain ⟨hin, hle⟩ := leastBy?_spec smaller_total smaller_trans hleast
    obtain ⟨hw, hk⟩ := hkey _ hin
    simp only at hw hk
    refine ⟨hw, ?_, fun _ c hc => ?_⟩
    · rintro ⟨c, hc, hcs⟩
      have := hall c hc
      omega
    · have hthis := smaller_iff.mp (hle _ (hmem c hc))
      rwa [hk] at hthis

theorem node_bindingTo (g : Graph) (w : Nat) : (g.bindingTo w).node = w := by
  unfold bindingTo
  split <;> rfl

/-! ### The walk outward -/

section Walk

variable {top : Span} {g : Graph}

/-- One scope of the walk: either it has no candidate, and the walk goes on with its
parent, or the one that is meant is the result. -/
theorem Structured.lookup_succ (h : g.Structured top) (span : Span) (name : String)
    (symbol : Option SymbolIndex) (scope n : Nat) :
    (g.lookup span name symbol (n + 1) scope = (do
        match ← g.parent scope with
        | some outer => g.lookup span name symbol n outer
        | none => return none) ∧ ∀ w, ¬ g.Candidate scope name symbol w) ∨
      ∃ w, g.Meant span.start.byte (g.Candidate scope name symbol) w ∧
        g.lookup span name symbol (n + 1) scope = .ok (some (g.bindingTo w)) := by
  obtain ⟨ws, hws, hmem⟩ := h.eligibleIn_eq_ok scope name symbol
  have hP : (· ∈ ws) = g.Candidate scope name symbol := funext fun w => propext (hmem w)
  rw [lookup, hws]
  simp only [bind, Except.bind]
  cases hc : g.choose? span.start.byte ws with
  | none =>
    left
    rw [choose?_eq_none] at hc
    refine ⟨rfl, fun w hw => ?_⟩
    rw [← hmem w, hc] at hw
    exact List.not_mem_nil hw
  | some w =>
    right
    exact ⟨w, hP ▸ choose?_spec hc, rfl⟩

/-- The walk along a chain ends at the first scope that has a candidate, with the one
that is meant, or without result if no scope has any. -/
theorem Structured.lookup_cases (h : g.Structured top) (span : Span) (name : String)
    (symbol : Option SymbolIndex) {scope : Nat} {chain : List Nat}
    (hout : g.Outward scope chain) : ∀ n, scope < n →
      (g.lookup span name symbol n scope = .ok none ∧
        ∀ s ∈ chain, ∀ w, ¬ g.Candidate s name symbol w) ∨
      ∃ inner s outer w, chain = inner ++ s :: outer ∧
        (∀ t ∈ inner, ∀ v, ¬ g.Candidate t name symbol v) ∧
        g.Meant span.start.byte (g.Candidate s name symbol) w ∧
        g.lookup span name symbol n scope = .ok (some (g.bindingTo w)) := by
  induction hout with
  | root =>
    intro n hn
    obtain ⟨n, rfl⟩ : ∃ m, n = m + 1 := ⟨n - 1, by omega⟩
    rcases h.lookup_succ span name symbol root n with ⟨heq, hnone⟩ | ⟨w, hw, heq⟩
    · left
      rw [heq, h.parent_root]
      refine ⟨rfl, fun s hs => ?_⟩
      rw [List.mem_singleton.mp hs]
      exact hnone
    · exact Or.inr ⟨[], root, [], w, rfl, by simp, hw, heq⟩
  | @step scope outer rest hparent hrest ih =>
    intro n hn
    obtain ⟨n, rfl⟩ : ∃ m, n = m + 1 := ⟨n - 1, by omega⟩
    have hlt := (h.of_parent hparent).1
    rcases h.lookup_succ span name symbol scope n with ⟨heq, hnone⟩ | ⟨w, hw, heq⟩
    · rw [heq, hparent]
      rcases ih n (by omega) with ⟨hok, hall⟩ | ⟨inner, s, outer', w, rfl, hinner, hw, hok⟩
      · left
        refine ⟨hok, fun s hs => ?_⟩
        rcases List.mem_cons.mp hs with rfl | hs
        · exact hnone
        · exact hall s hs
      · right
        refine ⟨scope :: inner, s, outer', w, rfl, fun t ht => ?_, hw, hok⟩
        rcases List.mem_cons.mp ht with rfl | ht
        · exact hnone
        · exact hinner t ht
    · exact Or.inr ⟨[], scope, rest, w, rfl, by simp, hw, heq⟩

/-- Resolving a reference is the walk from the innermost scope around it. -/
theorem bindingFor_eq_lookup {r innermost : Nat} {span : Span} {name : String}
    {symbol : Option SymbolIndex} (hr : g.node? r = some (.reference span name symbol))
    (hsmall : g.smallestScope span = .ok innermost) :
    g.bindingFor r = (g.lookup span name symbol g.order innermost).mapError .damaged := by
  simp only [bindingFor, hr, hsmall, Error.ofFault_ok, bind, Except.bind]

/-- The walk never fails, and every scope on it is the root or contains the reference. -/
theorem Structured.bindingFor_cases (h : g.Structured top) (ho : g.ScopesOrdered) {r : Nat}
    {span : Span} {name : String} {symbol : Option SymbolIndex}
    (hr : g.node? r = some (.reference span name symbol)) :
    ∃ innermost chain, g.smallestScope span = .ok innermost ∧ g.Outward innermost chain ∧
      (∀ s ∈ chain, s = root ∨ (g.spanOf s).contains span = true) ∧
      ((g.bindingFor r = .ok none ∧ ∀ s ∈ chain, ∀ w, ¬ g.Candidate s name symbol w) ∨
        ∃ inner s outer w, chain = inner ++ s :: outer ∧
          (∀ t ∈ inner, ∀ v, ¬ g.Candidate t name symbol v) ∧
          g.Meant span.start.byte (g.Candidate s name symbol) w ∧
          g.bindingFor r = .ok (some (g.bindingTo w))) := by
  obtain ⟨innermost, hsmall, hdesc⟩ := h.smallestScope_eq_ok ho span
  obtain ⟨si, hsi⟩ := hdesc.scope_last h ⟨top, h.node?_root⟩
  obtain ⟨chain, hout⟩ := h.exists_outward innermost ⟨si, hsi⟩
  refine ⟨innermost, chain, hsmall, hout, h.outward_contains hout hdesc.eq_or_contains, ?_⟩
  have hbind := bindingFor_eq_lookup hr hsmall
  rcases h.lookup_cases span name symbol hout g.order (node?_lt hsi) with
    ⟨hok, hall⟩ | ⟨inner, s, outer, w, hchain, hinner, hw, hok⟩
  · left
    rw [hbind, hok]
    exact ⟨rfl, hall⟩
  · right
    refine ⟨inner, s, outer, w, hchain, hinner, hw, ?_⟩
    rw [hbind, hok]
    rfl

end Walk

/-- **The rule of resolution.**  On every graph built from events whose scopes are
ordered, a reference is looked up in the innermost scope around it and its successive
parents.  It denotes nothing exactly if none of them has a candidate; otherwise it
denotes the one that is meant in the first of them that has, and that scope is the
root or contains the reference. -/
theorem bindingFor_spec {top : Span} {symbols : SymbolTable} {events : List Event} {g : Graph}
    (hg : Graph.ofEvents top symbols events = .ok g)
    (hordered : ∀ s, .scopeStart s ∈ events → s.start.byte ≤ s.stop.byte) {r : Nat} {span : Span}
    {name : String} {symbol : Option SymbolIndex}
    (hr : g.node? r = some (.reference span name symbol)) :
    ∃ innermost chain, g.smallestScope span = .ok innermost ∧ g.Outward innermost chain ∧
      (g.bindingFor r = .ok none ↔ ∀ s ∈ chain, ∀ w, ¬ g.Candidate s name symbol w) ∧
      ((∃ s ∈ chain, ∃ w, g.Candidate s name symbol w) →
        ∃ inner s outer w b, chain = inner ++ s :: outer ∧
          (∀ t ∈ inner, ∀ v, ¬ g.Candidate t name symbol v) ∧
          g.Meant span.start.byte (g.Candidate s name symbol) w ∧
          g.bindingFor r = .ok (some b) ∧
          (∀ sp n, g.node? w = some (.imported sp n) → b = .imported w) ∧
          (∀ sp n sy, g.node? w = some (.definition sp n sy) → b = .definition w) ∧
          (s = root ∨ (g.spanOf s).contains span = true)) := by
  obtain ⟨innermost, chain, hsmall, hout, hcontains, hcases⟩ :=
    (structured_ofEvents hg).bindingFor_cases (InnerScopes.ofEvents hg hordered) hr
  refine ⟨innermost, chain, hsmall, hout, ?_⟩
  rcases hcases with ⟨hok, hall⟩ | ⟨inner, s, outer, w, hchain, hinner, hw, hok⟩
  · refine ⟨iff_of_true hok hall, ?_⟩
    rintro ⟨s, hs, w, hw⟩
    exact absurd hw (hall s hs w)
  · have hs : s ∈ chain := by rw [hchain]; simp
    refine ⟨iff_of_false (by rw [hok]; simp) fun hall => hall s hs w hw.candidate, fun _ => ?_⟩
    refine ⟨inner, s, outer, w, g.bindingTo w, hchain, hinner, hw, hok, ?_, ?_, hcontains s hs⟩
    · intro sp n hn
      simp [bindingTo, hn, Node.isImport]
    · intro sp n sy hn
      simp [bindingTo, hn, Node.isImport]

/-- A definition of another name space in the inner scope does not hide the one in the
root: the reference is looked up in the inner scope first, and bound to the other. -/
theorem bindingFor_spec_compatible :
    let events : List Event :=
      [.definition ⟨⟨1, 0, 1⟩, ⟨2, 0, 2⟩⟩ "x" .localScope (some "function"),
        .scopeStart ⟨⟨5, 0, 5⟩, ⟨25, 0, 25⟩⟩,
        .definition ⟨⟨6, 0, 6⟩, ⟨7, 0, 7⟩⟩ "x" .localScope (some "type"),
        .reference ⟨⟨10, 0, 10⟩, ⟨11, 0, 11⟩⟩ "x" (some "function"), .scopeEnd .zero]
    ∃ g, Graph.ofEvents ⟨⟨0, 0, 0⟩, ⟨30, 0, 30⟩⟩ ⟨[["function"], ["type"]]⟩ events = .ok g ∧
      (∀ s, .scopeStart s ∈ events → s.start.byte ≤ s.stop.byte) ∧
      g.node? 4 = some (.reference ⟨⟨10, 0, 10⟩, ⟨11, 0, 11⟩⟩ "x" (some ⟨0, 0⟩)) ∧
      g.node? 3 = some (.definition ⟨⟨6, 0, 6⟩, ⟨7, 0, 7⟩⟩ "x" (some ⟨1, 0⟩)) ∧
      (⟨3, 2, .definitionToScope⟩ : Edge) ∈ g.edges ∧
      g.smallestScope ⟨⟨10, 0, 10⟩, ⟨11, 0, 11⟩⟩ = .ok 2 ∧
      ∃ chain inner s outer, g.Outward 2 chain ∧
        (g.bindingFor 4 = .ok none ↔ ∀ s ∈ chain, ∀ w, ¬ g.Candidate s "x" (some ⟨0, 0⟩) w) ∧
        chain = inner ++ s :: outer ∧
        (∀ t ∈ inner, ∀ v, ¬ g.Candidate t "x" (some ⟨0, 0⟩) v) ∧
        g.Meant 10 (g.Candidate s "x" (some ⟨0, 0⟩)) 1 ∧
        g.bindingFor 4 = .ok (some (.definition 1)) ∧
        (s = root ∨ (g.spanOf s).contains ⟨⟨10, 0, 10⟩, ⟨11, 0, 11⟩⟩ = true) := by
  intro events
  have hordered : ∀ s, .scopeStart s ∈ events → s.start.byte ≤ s.stop.byte := by
    intro s hs
    simp [events] at hs
    simp [hs]
  obtain ⟨g, hg, hsmall, hedge, h3, h4, hbound⟩ : ∃ g,
      Graph.ofEvents ⟨⟨0, 0, 0⟩, ⟨30, 0, 30⟩⟩ ⟨[["function"], ["type"]]⟩ events = .ok g ∧
      g.smallestScope ⟨⟨10, 0, 10⟩, ⟨11, 0, 11⟩⟩ = .ok 2 ∧
      (⟨3, 2, .definitionToScope⟩ : Edge) ∈ g.edges ∧
      g.node? 3 = some (.definition ⟨⟨6, 0, 6⟩, ⟨7, 0, 7⟩⟩ "x" (some ⟨1, 0⟩)) ∧
      g.node? 4 = some (.reference ⟨⟨10, 0, 10⟩, ⟨11, 0, 11⟩⟩ "x" (some ⟨0, 0⟩)) ∧
      g.bindingFor 4 = .ok (some (.definition 1)) :=
    ⟨_, rfl, rfl, by decide, rfl, rfl, by with_unfolding_all rfl⟩
  obtain ⟨innermost, chain, hinnermost, hout, hiff, hmeant⟩ := bindingFor_spec hg hordered h4
  obtain rfl : innermost = 2 := Except.ok.inj (hinnermost.symm.trans hsmall)
  have hcandidate : ∃ s ∈ chain, ∃ w, g.Candidate s "x" (some ⟨0, 0⟩) w := by
    refine Classical.byContradiction fun hnone => ?_
    have hunbound := hiff.mpr fun s hs w hw => hnone ⟨s, hs, w, hw⟩
    rw [hbound] at hunbound
    cases hunbound
  obtain ⟨inner, s, outer, w, b, hchain, hinner, hw, hb, himport, hdefinition, hs⟩ :=
    hmeant hcandidate
  obtain rfl : .definition 1 = b := Option.some.inj (Except.ok.inj (hbound.symm.trans hb))
  obtain rfl : 1 = w := by
    rcases hw.candidate with ⟨span, actual, hn, -⟩ | ⟨span, hn, -⟩
    · exact Binding.definition.inj (hdefinition _ _ _ hn)
    · cases himport _ _ hn
  exact ⟨g, hg, hordered, h4, h3, hedge, hsmall, chain, inner, s, outer, hout, hiff, hchain, hinner,
    hw, hbound, hs⟩

end Graph
end NameBinding
