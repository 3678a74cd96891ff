import NameBinding.Proofs.Containment
import NameBinding.Proofs.Inventory
import NameBinding.Proofs.Placement

/-!
# The graph of captures

What the graph of regular captures consists of, said of the captures as they are
given and not of their events: its scopes, where they lie, what is declared in them,
in which order, and which references there are.

## Main definitions

* `Capture.isUse`, `Capture.useNode` — references that are uses, and their nodes.
* `Graph.Represents` — the graph is that of the captures.

## Main results

* `Graph.ofEvents_represents` — **the events of regular captures build a graph that
  represents the captures.**
* `Represents.exists_binder` — a declaration is the binder of its span, in its home.
* `Graph.ofEvents_containment` — **the tree of scopes is their containment order, and
  the open scopes and the descent place declarations alike.**
-/

namespace NameBinding
namespace Capture

/-- Is the capture a use of a name? It is a reference whose span is not ignored and
declares no name itself. -/
def isUse (captures : List Capture) (r : Capture) : Bool :=
  r.role == .reference &&
    !captures.any fun c => (c.role == .ignored || c.role.declares) && c.span == r.span

/-- The node of a use. -/
def useNode (symbols : SymbolTable) (r : Capture) : Node :=
  .reference r.span r.text (r.symbol.bind symbols.indexOf?)

variable {top : Span} {symbols : SymbolTable} {captures : List Capture}

/-! ### Events of captures -/

/-- Scope ends apart, each event is that of a capture. -/
theorem filterMap_emit {β : Type} {f : Event → Option β} (hf : ∀ s, f (.scopeEnd s) = none) :
    ∀ (cs : List Capture) (opened : List Span),
      (emit opened cs).filterMap f = cs.filterMap fun c => c.toEvent?.bind f := by
  have hends : ∀ es : List Span, (es.map Event.scopeEnd).filterMap f = [] := by
    intro es
    rw [List.filterMap_map, List.filterMap_eq_nil_iff]
    exact fun s _ => hf s
  intro cs
  induction cs with
  | nil => intro opened; exact hends opened
  | cons c cs ih =>
    intro opened
    rw [emit, List.filterMap_append, List.filterMap_append, hends, List.nil_append, ih,
      List.filterMap_cons]
    cases he : c.toEvent? with
    | none => rfl
    | some e => cases hfe : f e <;> simp [hfe]

theorem declaration?_eq (symbols : SymbolTable) (c : Capture) :
    c.toEvent?.bind (Event.declaration? symbols) = c.declaration? symbols := by
  cases hr : c.role <;> simp [toEvent?, declaration?, hr, Event.declaration?]

/-- The declarations of the events of captures. -/
theorem declarations_events (symbols : SymbolTable) (captures : List Capture) :
    (events captures).filterMap (Event.declaration? symbols) =
      (inOrder captures).filterMap (declaration? symbols) := by
  rw [events, filterMap_emit (fun _ => rfl)]
  simp only [declaration?_eq]

/-- The references of the events of captures. -/
theorem uses_events (symbols : SymbolTable) (captures : List Capture) :
    (events captures).filterMap (Event.use? symbols) =
      ((inOrder captures).filter (·.role == .reference)).map fun r =>
        ⟨r.span, r.text, r.symbol.bind symbols.indexOf?⟩ := by
  rw [events, filterMap_emit (fun _ => rfl)]
  induction inOrder captures with
  | nil => rfl
  | cons c cs ih =>
    rw [List.filterMap_cons, List.filter_cons, ih]
    cases hr : c.role <;> simp [toEvent?, hr, Event.use?]

theorem isSome_declaration? {c : Capture} :
    (c.declaration? symbols).isSome = c.role.declares := by
  cases hr : c.role <;> simp [declaration?, hr, Role.declares, Role.isDefinition, Role.isImport]

theorem declaresName_of_declaration? {c : Capture} {n : Node}
    (h : c.declaration? symbols = some n) : n.declaresName = true := by
  unfold declaration? at h
  split at h <;> cases h <;> rfl

/-! ### Scopes and homes, as given and in order -/

theorem mem_scopeSpans_inOrder {s : Span} :
    s ∈ scopeSpans top (inOrder captures) ↔ s ∈ scopeSpans top captures := by
  rw [mem_scopeSpans, mem_scopeSpans, exists_scope_inOrder_iff]

theorem mem_filter_scopeSpans_inOrder {s u : Span} :
    u ∈ (scopeSpans top (inOrder captures)).filter (· ≠ s) ↔
      u ∈ (scopeSpans top captures).filter (· ≠ s) := by
  rw [List.mem_filter, List.mem_filter, mem_scopeSpans_inOrder]

theorem home_of_inOrder {c : Capture} {h : Span} (hh : Home top (inOrder captures) c h) :
    Home top captures c h := by
  unfold Home at hh ⊢
  split at hh
  · obtain ⟨s, hs, hcases⟩ := hh
    refine ⟨s, hs.congr fun _ => mem_scopeSpans_inOrder, hcases.imp ?_ ?_⟩
    · exact fun ho => ho.congr fun _ => mem_filter_scopeSpans_inOrder
    · exact fun ⟨hall, htop⟩ => ⟨fun u hu => hall u (mem_scopeSpans_inOrder.mpr hu), htop⟩
  · exact hh
  · exact hh.congr fun _ => mem_scopeSpans_inOrder

/-- The spans that declare a name are those of the captures that do. -/
theorem mem_declared_spans {s : Span} :
    s ∈ ((inOrder captures).filterMap (declaration? symbols)).map Node.span ↔
      ∃ c ∈ captures, c.role.declares = true ∧ c.span = s := by
  rw [List.mem_map]
  constructor
  · rintro ⟨n, hn, rfl⟩
    obtain ⟨c, hc, hcn⟩ := List.mem_filterMap.mp hn
    refine ⟨c, mem_of_mem_inOrder hc, ?_, (declaration?_span hcn).1.symm⟩
    rw [← isSome_declaration?, hcn]
    rfl
  · rintro ⟨c, hc, hdecl, rfl⟩
    obtain ⟨n, hn⟩ := Option.isSome_iff_exists.mp (isSome_declaration?.trans hdecl)
    refine ⟨n, List.mem_filterMap.mpr ⟨c, mem_inOrder_of_kept ?_ ?_, hn⟩, (declaration?_span hn).1⟩
    · rw [kept, List.mem_filter]
      cases hr : c.role <;> simp_all [Role.declares, Role.isDefinition, Role.isImport]
    · intro hr
      rw [hr] at hdecl
      cases hdecl

theorem isUse_iff {r : Capture} : isUse captures r = true ↔ r.role = .reference ∧
    (∀ c ∈ captures, c.role = .ignored → c.span ≠ r.span) ∧
    ∀ c ∈ captures, c.role.declares = true → c.span ≠ r.span := by
  simp only [isUse, Bool.and_eq_true, beq_iff_eq, Bool.not_eq_true', List.any_eq_false,
    Bool.or_eq_true, not_and, or_imp, forall_and]

/-- Up to their order, the references that remain are the uses. -/
theorem perm_uses (captures : List Capture) :
    (((inOrder captures).filter (·.role == .reference)).filter fun r =>
        !captures.any fun c => c.role.declares && c.span == r.span).Perm
      (captures.filter (isUse captures)) := by
  have hsort : (((kept captures).mergeSort precedes).filter (·.role == .reference)).Perm
      ((kept captures).filter (·.role == .reference)) :=
    (List.mergeSort_perm _ _).filter _
  have hnoscope : ∀ c : Capture, (c.role == .reference) = true → c.role ≠ .scope := by
    intro c hc hs
    rw [hs] at hc
    cases hc
  rw [filter_inOrder hnoscope]
  refine (hsort.filter _).trans (List.Perm.of_eq ?_)
  -- both keep the references that are neither ignored nor declare a name
  rw [kept, List.filter_filter, List.filter_filter]
  refine List.filter_congr fun r _ => ?_
  have hignored : r.span ∈ ignoredSpans captures ↔
      ∃ c ∈ captures, c.role = .ignored ∧ c.span = r.span := by
    simp [ignoredSpans, and_assoc]
  have hdeclared : captures.any (fun c => c.role.declares && c.span == r.span) = true ↔
      ∃ c ∈ captures, c.role.declares = true ∧ c.span = r.span := by
    simp
  rw [Bool.eq_iff_iff, isUse_iff]
  cases hr : r.role with
  | reference =>
    simp only [Bool.and_eq_true, Bool.not_eq_true', ← Bool.not_eq_true, hdeclared,
      decide_eq_true_eq, hignored, beq_self_eq_true, not_exists, not_and, ne_eq, true_and, and_true]
    exact and_comm
  | scope | definition | imported | ignored => simp

end Capture

open Capture

namespace Graph

/-- The graph is that of the captures. -/
structure Represents (top : Span) (symbols : SymbolTable) (captures : List Capture)
    (g : Graph) : Prop where
  tree : g.ContainmentTree top
  /-- Scopes have the spans of the captured scopes and of the whole text. -/
  scopes : ∀ s, (∃ i, g.node? i = some (.scope s)) ↔ s ∈ scopeSpans top captures
  /-- They lie in the smallest other scope around them. -/
  parents : ∀ p i, g.IsChild p i →
    Span.IsInnermost ((scopeSpans top captures).filter (· ≠ g.spanOf i)) (g.spanOf i) (g.spanOf p)
  /-- What is declared is the binder of its span, in its home. -/
  declared : ∀ e ∈ g.edges, e.kind.declares = true →
    ∃ d, binderAt captures d.span = some d ∧ g.node? e.source = d.declaration? symbols ∧
      Home top captures d (g.spanOf e.target)
  /-- Every binder is declared. -/
  covered : ∀ d, binderAt captures d.span = some d →
    ∃ i n, d.declaration? symbols = some n ∧ g.node? i = some n
  /-- Declarations stand by start, the longer one first. -/
  ordered : ∀ i j m n, i < j → g.node? i = some m → g.node? j = some n → m.declaresName = true →
    n.declaresName = true → m.span.start.byte < n.span.start.byte ∨
      (m.span.start.byte = n.span.start.byte ∧ n.span.stop.byte < m.span.stop.byte)
  /-- References are the uses. -/
  uses : (g.nodes.filter Node.isReference).Perm
    ((captures.filter (isUse captures)).map (useNode symbols))

variable {top : Span} {symbols : SymbolTable} {captures : List Capture} {g : Graph}

/-- The scopes of a mirroring graph are a containment tree. -/
theorem Mirrors.containmentTree (hreg : Regular top captures) (hg : g.Structured top)
    (h : g.Mirrors top symbols captures captures) : g.ContainmentTree top := by
  -- all scopes but the root are captured
  have hcapture : ∀ i s, i ≠ root → g.node? i = some (.scope s) →
      ∃ c ∈ captures, c.role = .scope ∧ c.span = s := by
    intro i s hi hs
    rcases mem_scopeSpans.mp ((h.scopes s).mp ⟨i, hs⟩) with rfl | hc
    · exact absurd (h.unique i root s hs hg.node?_root) hi
    · exact hc
  have hmem : ∀ i s, g.node? i = some (.scope s) → s ∈ scopeSpans top captures :=
    fun i s hs => (h.scopes s).mp ⟨i, hs⟩
  refine ⟨hg, ?_, ?_, ?_, ?_, ?_⟩
  · intro i s hi hs
    obtain ⟨c, hc, -, rfl⟩ := hcapture i s hi hs
    exact hreg.nonempty c hc
  · intro i s hi hs
    exact hreg.top_contains (hmem i s hs)
  · intro i j s t hi hj hs ht
    obtain ⟨a, ha, harole, rfl⟩ := hcapture i s hi hs
    obtain ⟨b, hb, hbrole, rfl⟩ := hcapture j t hj ht
    exact hreg.nested a ha b hb harole hbrole
  · intro i j s t hs ht hst hts
    have heq := hreg.eq_of_contains (Regular.span_mem (hmem i s hs))
      (Regular.span_mem (hmem j t ht)) hst hts
    rw [← heq] at ht
    exact h.unique i j s hs ht
  · intro p i hchild j s hs hne hcontains
    obtain ⟨-, t, ht⟩ := hg.isChild_scope hchild
    have hspan : g.spanOf i = t := spanOf_eq ht
    refine (h.parents p i hchild).least s (List.mem_filter.mpr ⟨hmem j s hs, ?_⟩) hcontains
    rw [decide_eq_true_eq, hspan]
    rintro rfl
    exact hne (h.unique j i s hs ht)

/-- Declarations come in the order of captures, and no two have one span. -/
theorem pairwise_declarations (hreg : Regular top captures)
    (hg : Graph.ofEvents top symbols (events captures) = .ok g) :
    (g.nodes.filter Node.declaresName).Pairwise fun m n =>
      m.span.start.byte < n.span.start.byte ∨
        (m.span.start.byte = n.span.start.byte ∧ n.span.stop.byte < m.span.stop.byte) := by
  rw [declarations_ofEvents hg, declarations_events]
  have hsorted : ((inOrder captures).filterMap (declaration? symbols)).Pairwise fun m n =>
      m.span.start.byte < n.span.start.byte ∨ (m.span.start.byte = n.span.start.byte ∧
        (n.span.stop.byte < m.span.stop.byte ∨ m.span = n.span)) := by
    rw [List.pairwise_filterMap]
    refine (pairwise_inOrder captures).imp_of_mem ?_
    intro a b ha hb hab m hm n hn
    have hspans : ∀ c ∈ inOrder captures, c.span ∈ top :: captures.map Capture.span :=
      fun c hc => List.mem_cons_of_mem _ (List.mem_map_of_mem (mem_of_mem_inOrder hc))
    rw [precedes_iff] at hab
    rw [(declaration?_span hm).1, (declaration?_span hn).1]
    rcases hab with hlt | ⟨heq, hlt | ⟨hstop, -⟩⟩
    · exact Or.inl hlt
    · exact Or.inr ⟨heq, Or.inl hlt⟩
    · exact Or.inr ⟨heq, Or.inr (hreg.eq_of_bytes _ (hspans a ha) _ (hspans b hb) heq hstop.symm)⟩
  have hfirsts := Node.firsts_sublist ((inOrder captures).filterMap (declaration? symbols)) []
  refine ((hsorted.sublist hfirsts).and (Node.pairwise_firsts _ [])).imp ?_
  rintro m n ⟨hlt | ⟨heq, hlt | hspan⟩, hne⟩
  · exact Or.inl hlt
  · exact Or.inr ⟨heq, hlt⟩
  · exact absurd hspan hne

/-- Every binder has its node. -/
theorem exists_node_of_binderAt (hg : Graph.ofEvents top symbols (events captures) = .ok g)
    {d : Capture} (hd : binderAt captures d.span = some d) :
    ∃ i n, d.declaration? symbols = some n ∧ g.node? i = some n := by
  rw [← find?_inOrder] at hd
  have hdecl := List.find?_some hd
  rw [Bool.and_eq_true] at hdecl
  obtain ⟨n, hn⟩ := Option.isSome_iff_exists.mp (isSome_declaration?.trans hdecl.1)
  have hfind : ((inOrder captures).filterMap (declaration? symbols)).find? (·.span == n.span) =
      some n := by
    have hsame : ∀ c : Capture, (c.declaration? symbols).any (·.span == n.span) =
        (c.role.declares && c.span == d.span) := by
      intro c
      rw [(declaration?_span hn).1, ← isSome_declaration?]
      cases hc : c.declaration? symbols with
      | none => rfl
      | some m => rw [Option.any_some, (declaration?_span hc).1, Option.isSome_some, Bool.true_and]
    rw [List.find?_filterMap]
    simp only [hsame]
    rw [hd]
    exact hn
  have hmem : n ∈ g.nodes.filter Node.declaresName := by
    rw [declarations_ofEvents hg, declarations_events, Node.mem_firsts]
    exact ⟨List.not_mem_nil, hfind⟩
  obtain ⟨i, hi⟩ := List.mem_iff_getElem?.mp (List.mem_filter.mp hmem).1
  exact ⟨i, n, hn, hi⟩

/-- Up to their order, the references of the graph are the uses. -/
theorem perm_references (hg : Graph.ofEvents top symbols (events captures) = .ok g) :
    (g.nodes.filter Node.isReference).Perm
      ((captures.filter (isUse captures)).map (useNode symbols)) := by
  rw [references_ofEvents hg, declarations_events, uses_events, List.filter_map, List.map_map]
  have hfilter : ((inOrder captures).filter (·.role == .reference)).filter
        ((fun r : PendingReference => decide (r.span ∉
            ((inOrder captures).filterMap (declaration? symbols)).map Node.span)) ∘
          fun r => ⟨r.span, r.text, r.symbol.bind symbols.indexOf?⟩) =
      ((inOrder captures).filter (·.role == .reference)).filter fun r =>
        !captures.any fun c => c.role.declares && c.span == r.span := by
    refine List.filter_congr fun r _ => ?_
    rw [Function.comp, Bool.eq_iff_iff, decide_eq_true_eq, mem_declared_spans]
    simp
  rw [hfilter]
  exact (perm_uses captures).map _

/-- **The events of regular captures build a graph that represents the captures.** -/
theorem ofEvents_represents (symbols : SymbolTable) (hreg : Regular top captures) :
    ∃ g, Graph.ofEvents top symbols (events captures) = .ok g ∧
      g.Represents top symbols captures := by
  obtain ⟨g, hg, h⟩ := ofEvents_mirrors symbols hreg
  have hreg' : Regular top (inOrder captures) := hreg.mono fun c hc => mem_of_mem_inOrder hc
  refine ⟨g, hg, h.containmentTree hreg' (structured_ofEvents hg), ?_, ?_, ?_, ?_, ?_, ?_⟩
  · intro s
    rw [h.scopes, mem_scopeSpans_inOrder]
  · intro p i hchild
    exact (h.parents p i hchild).congr fun _ => mem_filter_scopeSpans_inOrder
  · intro e he hk
    obtain ⟨d, -, hfirst, hn, hhome⟩ := h.declared e he hk
    rw [find?_inOrder] at hfirst
    exact ⟨d, hfirst, hn, home_of_inOrder hhome⟩
  · intro d hd
    exact exists_node_of_binderAt hg hd
  · intro i j m n hij hi hj hm hn
    have hpair := pairwise_declarations hreg hg
    rw [List.pairwise_filter, List.pairwise_iff_getElem] at hpair
    obtain ⟨hilt, rfl⟩ := List.getElem?_eq_some_iff.mp hi
    obtain ⟨hjlt, rfl⟩ := List.getElem?_eq_some_iff.mp hj
    exact hpair i j hilt hjlt hij hm hn
  · exact perm_references hg

/-! ### Where declarations live -/

/-- A declaration of the given role belongs in the scope `p`, if the innermost scope
around it is `m`. -/
def PlacedAt (g : Graph) (m : Nat) (role : Role) (p : Nat) : Prop :=
  match role with
  | .definition .hoisted => g.parent m = .ok (some p) ∨ (m = root ∧ p = root)
  | .definition .globalScope => p = root
  | _ => p = m

theorem binderAt_mem {d : Capture} {s : Span} (h : binderAt captures s = some d) :
    d ∈ captures ∧ d.span = s ∧ d.role.declares = true := by
  rw [← find?_inOrder] at h
  have hd := List.find?_some h
  rw [Bool.and_eq_true, beq_iff_eq] at hd
  exact ⟨mem_of_mem_inOrder (List.mem_of_find?_eq_some h), hd.2, hd.1⟩

namespace Represents

/-- One span, one scope. -/
theorem scope_unique (h : g.Represents top symbols captures) {i j : Nat} {s : Span}
    (hi : g.node? i = some (.scope s)) (hj : g.node? j = some (.scope s)) : i = j :=
  h.tree.unique i j s s hi hj (Span.contains_refl s) (Span.contains_refl s)

/-- The parent of a scope is the smallest other scope around it. -/
theorem exists_parent (h : g.Represents top symbols captures) {i : Nat} {s : Span}
    (hi : i ≠ root) (hs : g.node? i = some (.scope s)) :
    ∃ p t, g.parent i = .ok (some p) ∧ g.node? p = some (.scope t) ∧
      Span.IsInnermost ((scopeSpans top captures).filter (· ≠ s)) s t := by
  obtain ⟨p, hp⟩ := h.tree.structured.exists_parent hi hs
  obtain ⟨-, t, ht, -⟩ := h.tree.structured.of_parent hp
  have hin := h.parents p i (h.tree.structured.parent_eq_ok_iff.mp hp)
  rw [spanOf_eq hs, spanOf_eq ht] at hin
  exact ⟨p, t, hp, ht, hin⟩

/-- The descent finds the smallest scope around a captured span. -/
theorem smallestScope_eq_ok (h : g.Represents top symbols captures) (hreg : Regular top captures)
    {c : Capture} (hc : c ∈ captures) :
    ∃ m s, g.smallestScope c.span = .ok m ∧ g.node? m = some (.scope s) ∧
      Span.IsInnermost (scopeSpans top captures) c.span s := by
  obtain ⟨m, s, hm, hs, hcontains, hleast⟩ :=
    h.tree.smallestScope_eq_ok (hreg.nonempty c hc) (hreg.inside c hc)
  refine ⟨m, s, hm, hs, (h.scopes s).mp ⟨m, hs⟩, hcontains, fun u hu huc => ?_⟩
  obtain ⟨j, hj⟩ := (h.scopes u).mpr hu
  exact hleast j u hj huc

/-- The scope where a declaration belongs has the span of its home. -/
theorem exists_placedAt (h : g.Represents top symbols captures) (hreg : Regular top captures)
    {d : Capture} {m : Nat} {s : Span} (hm : g.node? m = some (.scope s))
    (hin : Span.IsInnermost (scopeSpans top captures) d.span s) :
    ∃ p t, g.PlacedAt m d.role p ∧ g.node? p = some (.scope t) ∧ Home top captures d t := by
  have hroot := h.tree.structured.node?_root
  cases hrole : d.role with
  | definition scoping =>
    cases scoping with
    | localScope => exact ⟨m, s, rfl, hm, by simp only [Home, hrole]; exact hin⟩
    | globalScope => exact ⟨root, top, rfl, hroot, by simp only [Home, hrole]⟩
    | hoisted =>
      simp only [Home, hrole]
      by_cases hmr : m = root
      · -- nothing lies around the root
        rw [hmr, hroot] at hm
        cases hm
        refine ⟨root, top, Or.inr ⟨hmr, rfl⟩, hroot, top, hin, Or.inr ⟨fun u hu hut => ?_, rfl⟩⟩
        exact hreg.eq_of_contains (Regular.span_mem hu) (List.mem_cons_self ..) hut
          (hreg.top_contains hu)
      · obtain ⟨p, t, hp, ht, hpt⟩ := h.exists_parent hmr hm
        exact ⟨p, t, Or.inl hp, ht, s, hin, Or.inl hpt⟩
  | scope | imported | reference | ignored =>
    exact ⟨m, s, rfl, hm, by simp only [Home, hrole]; exact hin⟩

/-- A declaration is the binder of its span, attached to the scope of its home. -/
theorem exists_binder (h : g.Represents top symbols captures) {i : Nat} {n : Node}
    (hn : g.node? i = some n) (hdecl : n.declaresName = true) :
    ∃ d p t, binderAt captures n.span = some d ∧ d.declaration? symbols = some n ∧
      g.homeScope i = .ok (some p) ∧ g.node? p = some (.scope t) ∧ Home top captures d t ∧
      ∃ kind : Relation, kind.declares = true ∧ (⟨i, p, kind⟩ : Edge) ∈ g.edges := by
  obtain ⟨p, kind, hk, hedge, hp⟩ := h.tree.structured.exists_declaring hn hdecl
  obtain ⟨d, hd, hnode, hhome⟩ := h.declared _ hedge hk
  obtain ⟨-, -, t, ht, -⟩ := h.tree.structured.attached _ hedge (Relation.binds_of_declares _ hk)
  simp only at hnode hhome ht
  rw [hn] at hnode
  rw [spanOf_eq ht] at hhome
  refine ⟨d, p, t, ?_, hnode.symm, hp, ht, hhome, kind, hk, hedge⟩
  rw [(declaration?_span hnode.symm).1]
  exact hd

end Represents

/-- **The tree of scopes is the containment order, and declarations live where the
descent leads.**  Regular captures build a graph with exactly one scope for the text
and each span of a scope.  The parent of a scope is the smallest other scope around it.
Each declaration comes from the binder of its span, and each binder is declared.  The
descent to it ends at the smallest scope around it, and that is where it lives, unless
it is hoisted, to the parent of that scope, or global, to the root. -/
theorem ofEvents_containment {top : Span} {captures : List Capture} (symbols : SymbolTable)
    (hreg : Regular top captures) :
    ∃ g, Graph.ofEvents top symbols (events captures) = .ok g ∧
      (∀ s, (∃ i, g.node? i = some (.scope s)) ↔ s ∈ scopeSpans top captures) ∧
      (∀ i j s, g.node? i = some (.scope s) → g.node? j = some (.scope s) → i = j) ∧
      (g.node? root = some (.scope top) ∧ g.parent root = .ok none) ∧
      (∀ i s, i ≠ root → g.node? i = some (.scope s) →
        ∃ p t, g.parent i = .ok (some p) ∧ g.node? p = some (.scope t) ∧
          Span.IsInnermost ((scopeSpans top captures).filter (· ≠ s)) s t) ∧
      (∀ d, binderAt captures d.span = some d →
        ∃ i n, d.declaration? symbols = some n ∧ g.node? i = some n) ∧
      ∀ i n, g.node? i = some n → n.declaresName = true →
        ∃ d m s p, binderAt captures n.span = some d ∧ d.declaration? symbols = some n ∧
          g.smallestScope n.span = .ok m ∧ g.node? m = some (.scope s) ∧
          Span.IsInnermost (scopeSpans top captures) n.span s ∧
          g.homeScope i = .ok (some p) ∧ g.PlacedAt m d.role p := by
  obtain ⟨g, hg, h⟩ := ofEvents_represents symbols hreg
  refine ⟨g, hg, h.scopes, fun i j s => h.scope_unique,
    ⟨h.tree.structured.node?_root, h.tree.structured.parent_root⟩,
    fun i s => h.exists_parent, h.covered, ?_⟩
  intro i n hn hdecl
  obtain ⟨d, p, t, hd, hdn, hp, ht, hhome, -⟩ := h.exists_binder hn hdecl
  obtain ⟨hmem, hspan, -⟩ := binderAt_mem hd
  obtain ⟨m, s, hm, hs, hin⟩ := h.smallestScope_eq_ok hreg hmem
  -- the scope the descent points to and the one the stack chose have one span
  obtain ⟨q, u, hq, hu, hhome'⟩ := h.exists_placedAt hreg hs hin
  obtain rfl : t = u := hreg.home_unique hhome hhome'
  obtain rfl : p = q := h.scope_unique ht hu
  rw [hspan] at hm hin
  exact ⟨d, m, s, p, hd, hdn, hm, hs, hin, hp, hq⟩

/-- With a scope as large as the text, one captured twice and two that start together,
a hoisted definition lives outside the innermost scope around it. -/
theorem ofEvents_containment_hoisted :
    let span (a b : Nat) : Span := ⟨⟨a, 0, a⟩, ⟨b, 0, b⟩⟩
    let captures : List Capture :=
      [⟨.scope, none, span 2 6, ""⟩, ⟨.imported, none, span 3 4, "x"⟩,
        ⟨.definition .hoisted, none, span 3 4, "x"⟩, ⟨.scope, none, span 2 10, ""⟩,
        ⟨.scope, none, span 0 20, ""⟩, ⟨.scope, none, span 2 6, ""⟩]
    Regular (span 0 20) captures ∧
      ∃ g i m p, Graph.ofEvents (span 0 20) ⟨[]⟩ (events captures) = .ok g ∧
        g.node? i = some (.definition (span 3 4) "x" none) ∧
        g.smallestScope (span 3 4) = .ok m ∧ g.node? m = some (.scope (span 2 6)) ∧
        g.homeScope i = .ok (some p) ∧ g.parent m = .ok (some p) := by
  intro span captures
  have hreg : Regular (span 0 20) captures := by
    refine ⟨by decide, by decide, by decide, by decide⟩
  obtain ⟨g, hg, -, -, ⟨hroot, -⟩, -, hcovered, hplaced⟩ := ofEvents_containment ⟨[]⟩ hreg
  obtain ⟨i, n, hn, hi⟩ := hcovered ⟨.definition .hoisted, none, span 3 4, "x"⟩ (by decide)
  cases hn
  obtain ⟨d, m, s, p, hd, -, hm, hs, hin, hp, hplace⟩ := hplaced i _ hi rfl
  have hspan : s = span 2 6 :=
    hreg.innermost_unique (fun _ => id) hin ⟨by decide, by decide, by decide⟩
  refine ⟨hreg, g, i, m, p, hg, hi, hm, hspan ▸ hs, hp, ?_⟩
  have hrole : d.role = .definition .hoisted := by
    have hb : binderAt captures (span 3 4) = some ⟨.definition .hoisted, none, span 3 4, "x"⟩ := by
      decide
    cases Option.some.inj (hd.symm.trans hb)
    rfl
  simp only [PlacedAt, hrole] at hplace
  refine hplace.resolve_right ?_
  rintro ⟨rfl, -⟩
  rw [hroot, hspan] at hs
  cases hs

end Graph
end NameBinding
