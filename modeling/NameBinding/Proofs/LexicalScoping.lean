import NameBinding.Proofs.Recording
import NameBinding.Proofs.Representation

/-!
# Lexical scoping

What a use of a name denotes, said of the captures alone.  A binder is a candidate if
it binds the name, its class does not exclude it and its home lies around the use.  The
candidates of the smallest home count, and of those the last one that starts at or
before the use, or else the first; of two that start together the longer one counts.
The graph built from the captures and then resolved binds each use so.

## Main definitions

* `Capture.CouldMean` — name and class fit.
* `Capture.IsCandidate` — what a use could denote.
* `Capture.Preferred`, `Capture.IsMeant` — what it does denote.

## Main results

* `Capture.IsMeant.unique` — a use denotes at most one capture.
* `Represents.candidate_iff` — candidates of the graph are candidates of the captures.
* `Graph.resolve_lexical` — **resolution is lexical scoping.**
-/

namespace NameBinding
namespace Capture

/-- The name a capture binds. -/
def boundName (c : Capture) : String :=
  if c.role.isImport then importedName c.text else c.text

/-- The name of `x` is that of the reference `r`, and if `x` is a definition, the
classes of the two, where both are known, are of one name space. -/
def CouldMean (symbols : SymbolTable) (r x : Capture) : Prop :=
  x.boundName = r.text ∧ (x.role.isDefinition = true →
    ∀ a b, r.symbol.bind symbols.indexOf? = some a → x.symbol.bind symbols.indexOf? = some b →
      a.space = b.space)

/-- The binder `x` could be meant by `r`, with a home `h` that lies around `r`. -/
structure IsCandidate (top : Span) (symbols : SymbolTable) (captures : List Capture)
    (r x : Capture) (h : Span) : Prop where
  binder : binderAt captures x.span = some x
  couldMean : CouldMean symbols r x
  home : Home top captures x h
  around : h.contains r.span = true

/-- Of two candidates with one home, `x` comes before `y`: of those that start at or
before the reference the last, else the first, and of two that start together the
longer one. -/
def Preferred (r x y : Capture) : Prop :=
  if x.span.start.byte ≤ r.span.start.byte then
    r.span.start.byte < y.span.start.byte ∨ y.span.start.byte < x.span.start.byte ∨
      (y.span.start.byte = x.span.start.byte ∧ y.span.stop.byte < x.span.stop.byte)
  else
    x.span.start.byte < y.span.start.byte ∨
      (x.span.start.byte = y.span.start.byte ∧ y.span.stop.byte < x.span.stop.byte)

/-- The reference `r` means `x`: its home lies in that of every candidate, and it comes
before all others with this home. -/
def IsMeant (top : Span) (symbols : SymbolTable) (captures : List Capture) (r x : Capture) :
    Prop :=
  ∃ h, IsCandidate top symbols captures r x h ∧
    (∀ y h', IsCandidate top symbols captures r y h' → h'.contains h = true) ∧
    ∀ y, IsCandidate top symbols captures r y h → y ≠ x → Preferred r x y

/-- The node of a binder is a definition or an import of the name it binds. -/
theorem declaration?_cases {symbols : SymbolTable} {c : Capture} {n : Node}
    (h : c.declaration? symbols = some n) :
    (c.role.isDefinition = true ∧
        n = .definition c.span c.boundName (c.symbol.bind symbols.indexOf?)) ∨
      (c.role.isDefinition = false ∧ n = .imported c.span c.boundName) := by
  cases hrole : c.role <;> simp only [declaration?, hrole, Option.some.injEq] at h
  case definition =>
    refine Or.inl ⟨rfl, ?_⟩
    rw [← h]
    simp [boundName, hrole, Role.isImport]
  case imported =>
    refine Or.inr ⟨rfl, ?_⟩
    rw [← h]
    simp [boundName, hrole, Role.isImport]
  all_goals cases h

theorem Preferred.asymm {r x y : Capture} (h : Preferred r x y) : ¬ Preferred r y x := by
  unfold Preferred at *
  split at h <;> split <;> omega

/-- A use denotes at most one capture. -/
theorem IsMeant.unique {top : Span} {symbols : SymbolTable} {captures : List Capture}
    {r x y : Capture} (hreg : Regular top captures) (hx : IsMeant top symbols captures r x)
    (hy : IsMeant top symbols captures r y) : x = y := by
  obtain ⟨h, hxc, hxleast, hxfirst⟩ := hx
  obtain ⟨h', hyc, hyleast, hyfirst⟩ := hy
  obtain rfl : h = h' := hreg.eq_of_contains (Regular.span_mem hxc.home.mem)
    (Regular.span_mem hyc.home.mem) (hyleast x h hxc) (hxleast y h' hyc)
  apply Decidable.byContradiction
  intro hne
  exact (hxfirst y hyc (Ne.symm hne)).asymm (hyfirst x hxc hne)

end Capture

open Capture

namespace Graph.Represents

variable {top : Span} {symbols : SymbolTable} {captures : List Capture} {g : Graph}

/-- The nodes of binders tell them apart. -/
theorem binder_eq {x y : Capture} {n : Node} (hx : binderAt captures x.span = some x)
    (hy : binderAt captures y.span = some y) (hxn : x.declaration? symbols = some n)
    (hyn : y.declaration? symbols = some n) : x = y := by
  rw [← (declaration?_span hxn).1] at hx
  rw [← (declaration?_span hyn).1] at hy
  exact Option.some.inj (hx.symm.trans hy)

/-- What is declared in a scope is what has its home there. -/
theorem declared_iff (h : g.Represents top symbols captures) (hreg : Regular top captures)
    {j w : Nat} {u : Span} {n : Node} {x : Capture} (hj : g.node? j = some (.scope u))
    (hn : g.node? w = some n) (hx : binderAt captures x.span = some x)
    (hxn : x.declaration? symbols = some n) :
    (∃ kind : Relation, kind.declares = true ∧ (⟨w, j, kind⟩ : Edge) ∈ g.edges) ↔
      Home top captures x u := by
  obtain ⟨d, p, t, hd, hdn, -, ht, hhome, kind, hk, hedge⟩ :=
    h.exists_binder hn (declaresName_of_declaration? hxn)
  rw [(declaration?_span hdn).1] at hd
  obtain rfl : x = d := binder_eq hx hd hxn hdn
  constructor
  · rintro ⟨kind', hk', hedge'⟩
    have heq := h.tree.structured.eq_of_source_eq hedge hedge' (Relation.binds_of_declares _ hk)
      (Relation.binds_of_declares _ hk') rfl
    cases heq
    rw [hj] at ht
    cases ht
    exact hhome
  · intro hu
    obtain rfl : u = t := hreg.home_unique hu hhome
    obtain rfl : j = p := h.scope_unique hj ht
    exact ⟨kind, hk, hedge⟩

/-- **Candidates of the graph are candidates of the captures.** -/
theorem candidate_iff (h : g.Represents top symbols captures) (hreg : Regular top captures)
    {j w : Nat} {u : Span} {r : Capture} (hj : g.node? j = some (.scope u)) :
    g.Candidate j r.text (r.symbol.bind symbols.indexOf?) w ↔
      ∃ x n, g.node? w = some n ∧ x.declaration? symbols = some n ∧
        binderAt captures x.span = some x ∧ CouldMean symbols r x ∧ Home top captures x u := by
  constructor
  · rintro (⟨span, actual, hn, hedge, hclass⟩ | ⟨span, hn, hedge⟩)
    · obtain ⟨x, -, -, hx, hxn, -⟩ := h.exists_binder hn rfl
      rw [(declaration?_span hxn).1] at hx
      have hhome := (h.declared_iff hreg hj hn hx hxn).mp ⟨_, rfl, hedge⟩
      refine ⟨x, _, hn, hxn, hx, ?_, hhome⟩
      rcases declaration?_cases hxn with ⟨-, heq⟩ | ⟨-, heq⟩
      · obtain ⟨-, hname, hactual⟩ := Node.definition.inj heq
        exact ⟨hname.symm, fun _ => hactual ▸ hclass⟩
      · exact Node.noConfusion heq
    · obtain ⟨x, -, -, hx, hxn, -⟩ := h.exists_binder hn rfl
      rw [(declaration?_span hxn).1] at hx
      have hhome := (h.declared_iff hreg hj hn hx hxn).mp ⟨_, rfl, hedge⟩
      refine ⟨x, _, hn, hxn, hx, ?_, hhome⟩
      rcases declaration?_cases hxn with ⟨-, heq⟩ | ⟨hno, heq⟩
      · exact Node.noConfusion heq
      · obtain ⟨-, hname⟩ := Node.imported.inj heq
        exact ⟨hname.symm, fun hdef => by rw [hno] at hdef; cases hdef⟩
  · rintro ⟨x, n, hn, hxn, hx, ⟨hname, hclass⟩, hhome⟩
    obtain ⟨kind, hk, hedge⟩ := (h.declared_iff hreg hj hn hx hxn).mpr hhome
    -- the edge has the kind of the node
    obtain ⟨-, n', hn', hkind⟩ : _ ∧ ∃ n', g.node? w = some n' ∧ _ :=
      h.tree.structured.source_of_edge hedge (Relation.binds_of_declares _ hk)
    rw [hn] at hn'
    cases hn'
    rcases declaration?_cases hxn with ⟨hdef, rfl⟩ | ⟨-, rfl⟩ <;> cases hkind
    · left
      rw [← hname]
      exact ⟨x.span, _, hn, hedge, hclass hdef⟩
    · right
      rw [← hname]
      exact ⟨x.span, hn, hedge⟩

/-- A candidate is declared in a scope around the use. -/
theorem exists_candidate (h : g.Represents top symbols captures) (hreg : Regular top captures)
    {r x : Capture} {u : Span} (hx : IsCandidate top symbols captures r x u) :
    ∃ j w n, g.node? j = some (.scope u) ∧ x.declaration? symbols = some n ∧
      g.node? w = some n ∧ g.Candidate j r.text (r.symbol.bind symbols.indexOf?) w := by
  obtain ⟨j, hj⟩ := (h.scopes u).mpr hx.home.mem
  obtain ⟨w, n, hxn, hn⟩ := h.covered x hx.binder
  exact ⟨j, w, n, hj, hxn, hn,
    (h.candidate_iff hreg hj).mpr ⟨x, n, hn, hxn, hx.binder, hx.couldMean, hx.home⟩⟩

/-- The choice among nodes is the choice among captures: later nodes that start at the
same point are shorter. -/
theorem preferred_of_meant (h : g.Represents top symbols captures) {r x y : Capture} {w v : Nat}
    {m n : Node} {P : Nat → Prop} (hw : g.Meant r.span.start.byte P w) (hv : P v)
    (hm : g.node? w = some m) (hn : g.node? v = some n) (hxm : x.declaration? symbols = some m)
    (hyn : y.declaration? symbols = some n) (hne : w ≠ v) : Preferred r x y := by
  have hxspan : m.span = x.span := (declaration?_span hxm).1
  have hyspan : n.span = y.span := (declaration?_span hyn).1
  have hxstart : g.startOf w = x.span.start.byte := by rw [startOf, spanOf_eq hm, hxspan]
  have hystart : g.startOf v = y.span.start.byte := by rw [startOf, spanOf_eq hn, hyspan]
  have hshorter : w ≤ v → x.span.start.byte = y.span.start.byte →
      y.span.stop.byte < x.span.stop.byte := by
    intro hle heq
    have hlt := h.ordered w v m n (by omega) hm hn (declaresName_of_declaration? hxm)
      (declaresName_of_declaration? hyn)
    rw [hxspan, hyspan] at hlt
    omega
  unfold Preferred
  split
  · next hbefore =>
    by_cases hy : y.span.start.byte ≤ r.span.start.byte
    · obtain ⟨-, hall⟩ := hw.before ⟨w, hw.candidate, by rw [hxstart]; exact hbefore⟩
      have hcmp := hall v hv (by rw [hystart]; exact hy)
      rw [hxstart, hystart] at hcmp
      omega
    · omega
  · next hafter =>
    -- then no candidate starts before the use
    have hall : ∀ c, P c → r.span.start.byte < g.startOf c := by
      intro c hc
      apply Nat.lt_of_not_le
      intro hle
      have hw' := (hw.before ⟨c, hc, hle⟩).1
      rw [hxstart] at hw'
      exact hafter hw'
    have hcmp := hw.after hall v hv
    rw [hxstart, hystart] at hcmp
    omega

/-- The scopes that are searched for a name are those around its use. -/
theorem mem_searched_iff (h : g.Represents top symbols captures) (hreg : Regular top captures)
    {r : Capture} (hr : r ∈ captures) {m : Nat} {chain : List Nat}
    (hm : g.smallestScope r.span = .ok m) (hout : g.Outward m chain) {j : Nat} {u : Span}
    (hj : g.node? j = some (.scope u)) : j ∈ chain ↔ u.contains r.span = true := by
  obtain ⟨m', s, hm', hs, hin⟩ := h.smallestScope_eq_ok hreg hr
  obtain rfl : m = m' := Except.ok.inj (hm.symm.trans hm')
  rw [h.tree.mem_outward_iff hout ⟨s, hs⟩, spanOf_eq hs]
  constructor
  · rintro ⟨u', hj', hcontains⟩
    rw [hj] at hj'
    cases hj'
    exact Span.contains_trans hcontains hin.contains
  · intro hcontains
    exact ⟨u, hj, hin.least u ((h.scopes u).mp ⟨j, hj⟩) hcontains⟩

/-- **A use denotes nothing if it has no candidate, and else what the captures say.** -/
theorem bindingFor_lexical (h : g.Represents top symbols captures) (hreg : Regular top captures)
    {r : Capture} (hr : r ∈ captures) {i : Nat} (hi : g.node? i = some (r.useNode symbols)) :
    (g.bindingFor i = .ok none ∧ ∀ x u, ¬ IsCandidate top symbols captures r x u) ∨
      ∃ x w n, IsMeant top symbols captures r x ∧ x.declaration? symbols = some n ∧
        g.node? w = some n ∧ g.bindingFor i = .ok (some (g.bindingTo w)) := by
  obtain ⟨m, chain, hm, hout, -, hcases⟩ := h.tree.structured.bindingFor_cases h.tree.ordered hi
  obtain ⟨m', s₀, hm', hs₀, -⟩ := h.smallestScope_eq_ok hreg hr
  obtain rfl : m = m' := Except.ok.inj (hm.symm.trans hm')
  rcases hcases with ⟨hnone, hall⟩ | ⟨inner, s, outer, w, hchain, hinner, hw, hsome⟩
  · refine Or.inl ⟨hnone, fun x u hx => ?_⟩
    obtain ⟨j, v, n, hj, -, -, hv⟩ := h.exists_candidate hreg hx
    exact hall j ((h.mem_searched_iff hreg hr hm hout hj).mpr hx.around) v hv
  · have hsmem : s ∈ chain := by rw [hchain]; simp
    obtain ⟨u, hs, -⟩ := (h.tree.mem_outward_iff hout ⟨s₀, hs₀⟩).mp hsmem
    obtain ⟨x, n, hn, hxn, hx, hcould, hhome⟩ := (h.candidate_iff hreg hs).mp hw.candidate
    have haround := (h.mem_searched_iff hreg hr hm hout hs).mp hsmem
    refine Or.inr ⟨x, w, n, ⟨u, ⟨hx, hcould, hhome, haround⟩, ?_, ?_⟩, hxn, hn, hsome⟩
    · -- a scope with a candidate is not one of those inside
      intro y u' hy
      obtain ⟨j, v, -, hj, -, -, hv⟩ := h.exists_candidate hreg hy
      have hjmem := (h.mem_searched_iff hreg hr hm hout hj).mpr hy.around
      have hpair := h.tree.pairwise_outward hout ⟨s₀, hs₀⟩
      rw [hchain] at hjmem hpair
      rcases List.mem_append.mp hjmem with hin | hin
      · exact absurd hv (hinner j hin v)
      · rcases List.mem_cons.mp hin with rfl | hin
        · rw [hs] at hj
          cases hj
          exact Span.contains_refl _
        · have hcontains := List.rel_of_pairwise_cons (List.pairwise_append.mp hpair).2.1 hin
          rw [spanOf_eq hj, spanOf_eq hs] at hcontains
          exact hcontains
    · intro y hy hne
      obtain ⟨j, v, n', hj, hyn, hn', hv⟩ := h.exists_candidate hreg hy
      obtain rfl : j = s := h.scope_unique hj hs
      refine h.preferred_of_meant hw hv hn hn' hxn hyn ?_
      rintro rfl
      rw [hn] at hn'
      cases hn'
      exact hne (binder_eq hy.binder hx hyn hxn)

end Graph.Represents

namespace Graph

/-- **Resolution is lexical scoping.**  Regular captures build a graph whose references
are the uses, and resolving it succeeds.  Each use is then bound to nothing, if it has no
candidate, or else to exactly one node, that of the one capture it means. -/
theorem resolve_lexical {top : Span} {captures : List Capture} (symbols : SymbolTable)
    (hreg : Regular top captures) :
    ∃ g g' counts, Graph.ofEvents top symbols (events captures) = .ok g ∧
      g.resolve = .ok (g', counts) ∧ g'.nodes = g.nodes ∧
      (g'.nodes.filter Node.isReference).Perm
        ((captures.filter (isUse captures)).map (useNode symbols)) ∧
      ∀ r ∈ captures, isUse captures r = true → ∀ i, g'.node? i = some (r.useNode symbols) →
        ((∀ x h, ¬ IsCandidate top symbols captures r x h) ∧
            g'.outgoing i Relation.binds = []) ∨
          ∃ x j n, IsMeant top symbols captures r x ∧
            (∀ y, IsMeant top symbols captures r y → y = x) ∧
            g'.outgoing i Relation.binds = [j] ∧ x.declaration? symbols = some n ∧
            g'.node? j = some n := by
  obtain ⟨g, hg, h⟩ := ofEvents_represents symbols hreg
  let meaning (i : Nat) : Option Binding := (g.bindingFor i).toOption.join
  -- the references are the uses, so all of them can be looked up
  have huse : ∀ i ∈ g.references, ∃ r ∈ captures, g.node? i = some (r.useNode symbols) := by
    intro i hi
    obtain ⟨n, hn, href⟩ := mem_references.mp hi
    have hmem := h.uses.mem_iff.mp (List.mem_filter.mpr ⟨List.mem_of_getElem? hn, href⟩)
    obtain ⟨r, hr, rfl⟩ := List.mem_map.mp hmem
    exact ⟨r, (List.mem_filter.mp hr).1, hn⟩
  have hmeaning : ∀ i ∈ g.references, g.bindingFor i = .ok (meaning i) := by
    intro i hi
    obtain ⟨r, hr, hn⟩ := huse i hi
    rcases h.bindingFor_lexical hreg hr hn with ⟨hb, -⟩ | ⟨x, w, n, -, -, -, hb⟩ <;>
      simp [meaning, hb, Except.toOption]
  have hlt : ∀ i ∈ g.references, ∀ b, meaning i = some b → b.node < g.order := by
    intro i hi b hb
    obtain ⟨r, hr, hn⟩ := huse i hi
    have hmi := hmeaning i hi
    rcases h.bindingFor_lexical hreg hr hn with ⟨hb', -⟩ | ⟨x, w, n, -, -, hw, hb'⟩
    · rw [hb', hb] at hmi
      cases hmi
    · rw [hb', hb] at hmi
      cases hmi
      rw [node_bindingTo]
      exact node?_lt hw
  obtain ⟨g', counts, hresolve, hnodes, hbound⟩ :=
    resolve_unbound (unbound_ofEvents hg) hmeaning hlt
  have hnode : ∀ i, g'.node? i = g.node? i := by
    intro i
    rw [node?, hnodes, ← node?]
  refine ⟨g, g', counts, hg, hresolve, hnodes, by rw [hnodes]; exact h.uses, ?_⟩
  intro r hr _ i hi
  rw [hnode] at hi
  have href : i ∈ g.references := mem_references.mpr ⟨_, hi, rfl⟩
  have hmi := hmeaning i href
  rcases h.bindingFor_lexical hreg hr hi with ⟨hb, hnone⟩ | ⟨x, w, n, hx, hxn, hw, hb⟩
  · rw [hb] at hmi
    refine Or.inl ⟨hnone, ?_⟩
    rw [hbound i href, ← Except.ok.inj hmi]
    rfl
  · rw [hb] at hmi
    refine Or.inr ⟨x, w, n, hx, fun y hy => hy.unique hreg hx, ?_, hxn, by rw [hnode]; exact hw⟩
    rw [hbound i href, ← Except.ok.inj hmi, Option.map_some, node_bindingTo]
    rfl

/-- A definition hoisted out of an inner scope hides one of the whole text, and counts
before one that follows the use. -/
theorem resolve_lexical_hoisted :
    let span (a b : Nat) : Span := ⟨⟨a, 0, a⟩, ⟨b, 0, b⟩⟩
    let captures : List Capture :=
      [⟨.reference, none, span 14 15, "x"⟩, ⟨.definition .localScope, none, span 20 21, "x"⟩,
        ⟨.scope, none, span 8 12, ""⟩, ⟨.definition .hoisted, none, span 9 10, "x"⟩,
        ⟨.scope, none, span 5 30, ""⟩, ⟨.definition .localScope, none, span 1 2, "x"⟩]
    Regular (span 0 40) captures ∧
      ∃ g g' counts i j, Graph.ofEvents (span 0 40) ⟨[]⟩ (events captures) = .ok g ∧
        g.resolve = .ok (g', counts) ∧ g'.node? i = some (.reference (span 14 15) "x" none) ∧
        g'.outgoing i Relation.binds = [j] ∧
        g'.node? j = some (.definition (span 9 10) "x" none) := by
  intro span captures
  let r : Capture := ⟨.reference, none, span 14 15, "x"⟩
  let d : Capture := ⟨.definition .hoisted, none, span 9 10, "x"⟩
  have hreg : Regular (span 0 40) captures := by
    refine ⟨by decide, by decide, by decide, by decide⟩
  have hd : IsCandidate (span 0 40) ⟨[]⟩ captures r d (span 5 30) := by
    refine ⟨by decide, ⟨rfl, ?_⟩, ?_, by decide⟩
    · intro _ a b ha
      cases ha
    · refine ⟨span 8 12, ⟨by decide, by decide, by decide⟩, Or.inl ⟨by decide, by decide, ?_⟩⟩
      decide
  -- of the two scopes around the use, the home is the smaller one
  have hleast : ∀ u ∈ scopeSpans (span 0 40) captures, u.contains r.span = true →
      u.contains (span 5 30) = true := by decide
  have hfirst : ∀ y ∈ captures, y.role.declares = true → y ≠ d → Preferred r d y := by
    simp only [Preferred]
    decide
  have hmeant : IsMeant (span 0 40) ⟨[]⟩ captures r d := by
    refine ⟨span 5 30, hd, fun y h hy => hleast h hy.home.mem hy.around, fun y hy hne => ?_⟩
    obtain ⟨hmem, -, hdecl⟩ := binderAt_mem hy.binder
    exact hfirst y hmem hdecl hne
  obtain ⟨g, g', counts, hg, hresolve, -, huses, hall⟩ := resolve_lexical ⟨[]⟩ hreg
  have hr : useNode ⟨[]⟩ r ∈ g'.nodes.filter Node.isReference :=
    huses.mem_iff.mpr (List.mem_map_of_mem (by decide))
  obtain ⟨i, hi⟩ := List.mem_iff_getElem?.mp (List.mem_filter.mp hr).1
  rcases hall r (by decide) (by decide) i hi with ⟨hnone, -⟩ | ⟨x, j, n, -, hunique, hj, hxn, hn⟩
  · exact absurd hd (hnone d _)
  · cases hunique d hmeant
    cases hxn
    exact ⟨hreg, g, g', counts, i, j, hg, hresolve, hi, hj, hn⟩

end Graph
end NameBinding
