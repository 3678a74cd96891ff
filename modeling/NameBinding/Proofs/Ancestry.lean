import Mathlib.Data.List.Chain
import NameBinding.Proofs.Totality

/-!
# The scopes around a node

The search for the innermost scope walks inward, the chain of scopes around a node and the
look-up of a reference walk outward.  All three move along the one tree of scopes: the chain
outward from where the search ends is the way the search came, and the scopes a look-up
examines are the ones of that chain.  Parents come before their children and contain them, so
the chain meets no scope twice, and what lies in its first scope lies in all of them.

## Main definitions

* `Graph.LeadsToRoot` — a chain of scopes from parent to parent, up to the root.
* `Graph.lookupVisiting`, `Graph.bindingForVisiting` — the look-up that also notes which
  scopes it examines.

## Main results

* `smallestScope_spec` — **the search ends at a scope around the span, all of whose children
  miss it, and has entered the smallest child at every step.**
* `Structured.chainFrom_outward` — neither the guard against repetition nor the bound cuts a
  chain short.
* `run_bindingForVisiting` — the notes do not change what a look-up finds.
* `ancestry_reaches_root` — **the chain of scopes around a node leads from its home to the
  root**, and a reference that denotes nothing is looked up in all of it.
-/

namespace NameBinding
namespace Graph

variable {top : Span} {g : Graph}

/-! ### Chains outward -/

theorem Outward.head?_eq {scope : Nat} {chain : List Nat} (h : g.Outward scope chain) :
    chain.head? = some scope := by
  cases h <;> rfl

theorem Outward.getLast?_eq {scope : Nat} {chain : List Nat} (h : g.Outward scope chain) :
    chain.getLast? = some Graph.root := by
  induction h with
  | root => rfl
  | step _ _ ih => rw [List.getLast?_cons, ih, Option.getD_some]

theorem outerScope?_of_parent {scope : Nat} {outer : Option Nat}
    (h : g.parent scope = .ok outer) : g.outerScope? scope = outer := by
  rw [outerScope?, h]

theorem Outward.isChain {scope : Nat} {chain : List Nat} (h : g.Outward scope chain) :
    chain.IsChain fun inner outer => g.outerScope? inner = some outer := by
  induction h with
  | root => exact .singleton _
  | step hparent hrest ih =>
    rw [List.isChain_cons]
    refine ⟨fun outer houter => ?_, ih⟩
    rw [hrest.head?_eq] at houter
    cases houter
    exact outerScope?_of_parent hparent

namespace Structured

/-- Outward, positions only get smaller. -/
theorem pairwise_outward_lt (h : g.Structured top) {scope : Nat} {chain : List Nat}
    (hout : g.Outward scope chain) : chain.Pairwise fun inner outer => outer < inner := by
  induction hout with
  | root => exact List.pairwise_singleton ..
  | @step scope outer rest hparent hrest ih =>
    have hlt := (h.of_parent hparent).1
    rw [List.pairwise_cons]
    refine ⟨fun a ha => ?_, ih⟩
    -- the parent comes first in the rest
    cases hrest with
    | root =>
      rw [List.mem_singleton.mp ha]
      exact hlt
    | step _ _ =>
      rcases List.mem_cons.mp ha with rfl | ha
      · exact hlt
      · have hle := List.rel_of_pairwise_cons ih ha
        omega

theorem nodup_outward (h : g.Structured top) {scope : Nat} {chain : List Nat}
    (hout : g.Outward scope chain) : chain.Nodup :=
  (h.pairwise_outward_lt hout).imp fun hlt heq => by omega

/-- A chain goes on with the parent of each of its scopes. -/
theorem parent_mem_outward (h : g.Structured top) {scope : Nat} {chain : List Nat}
    (hout : g.Outward scope chain) {a p : Nat} (ha : a ∈ chain)
    (hp : g.parent a = .ok (some p)) : p ∈ chain := by
  induction hout with
  | root =>
    rw [List.mem_singleton.mp ha, h.parent_root] at hp
    cases hp
  | step hparent hrest ih =>
    rcases List.mem_cons.mp ha with rfl | ha
    · rw [hparent] at hp
      cases hp
      exact List.mem_cons_of_mem _ (List.mem_of_head? hrest.head?_eq)
    · exact List.mem_cons_of_mem _ (ih ha)

/-- Outward, each scope but the root contains those before it. -/
theorem pairwise_outward_contains (h : g.Structured top) {scope : Nat} {chain : List Nat}
    (hout : g.Outward scope chain) : chain.Pairwise fun inner outer =>
      outer = root ∨ (g.spanOf outer).contains (g.spanOf inner) = true := by
  induction hout with
  | root => exact List.pairwise_singleton ..
  | @step scope outer rest hparent hrest ih =>
    rw [List.pairwise_cons]
    refine ⟨fun a ha => ?_, ih⟩
    have hself : (g.spanOf scope).contains (g.spanOf scope) = true := by simp [Span.contains]
    exact h.outward_contains (.step hparent hrest) (Or.inr hself) a (List.mem_cons_of_mem _ ha)

end Structured

/-! ### The way of the search -/

/-- The way of the descent, seen from its end, is the chain outward, and each scope on it is
the closest child of the next one. -/
theorem Structured.exists_way (h : g.Structured top) {span : Span} {scope last : Nat}
    (hdesc : g.DescendsTo span scope last) : ∀ {rest : List Nat}, g.Outward scope rest →
      ∃ way, g.Outward last (way ++ rest) ∧
        ∀ a ∈ way, ∃ p, g.parent a = .ok (some p) ∧ g.ClosestChild p span a := by
  induction hdesc with
  | stay _ =>
    intro rest hout
    exact ⟨[], hout, by simp⟩
  | @step scope child last hclosest _ ih =>
    intro rest hout
    have hparent := h.parent_of_edge hclosest.isChild
    obtain ⟨way, hway, hsteps⟩ := ih (.step hparent hout)
    refine ⟨way ++ [child], by simpa using hway, fun a ha => ?_⟩
    rcases List.mem_append.mp ha with ha | ha
    · exact hsteps a ha
    · rw [List.mem_singleton.mp ha]
      exact ⟨scope, hparent, hclosest⟩

theorem mem_scopesIn {scope child : Nat} : child ∈ g.scopesIn scope ↔ g.IsChild scope child := by
  rw [scopesIn, sortBySpan, List.mem_mergeSort, mem_incoming_scopes]

/-- **The search for the innermost scope.**  On every graph built from events whose scopes are
ordered, the search around a span ends at a scope `s`.  Both `s` and the scopes around it
contain the span, except for the root, which may not; no child of `s` does.  Each of these
scopes was entered as the smallest child of its parent that contains the span, and as the
first of several smallest ones. -/
theorem smallestScope_spec {symbols : SymbolTable} {events : List Event}
    (hg : Graph.ofEvents top symbols events = .ok g)
    (hordered : ∀ s, .scopeStart s ∈ events → s.start.byte ≤ s.stop.byte) (span : Span) :
    ∃ s chain, g.smallestScope span = .ok s ∧ (∃ t, g.node? s = some (.scope t)) ∧
      g.Outward s chain ∧
      (∀ a ∈ chain, a ≠ root → (g.spanOf a).contains span = true) ∧
      (∀ child ∈ g.scopesIn s, (g.spanOf child).contains span = false) ∧
      (∀ i t, i ≠ root → g.node? i = some (.scope t) → t.size = .ok (g.width i)) ∧
      ∀ a ∈ chain, ∀ p, g.outerScope? a = some p → g.ClosestChild p span a := by
  have h := structured_ofEvents hg
  have ho : g.ScopesOrdered := InnerScopes.ofEvents hg hordered
  obtain ⟨s, hs, hdesc⟩ := h.smallestScope_eq_ok ho span
  obtain ⟨way, hout, hsteps⟩ := h.exists_way hdesc .root
  refine ⟨s, way ++ [root], hs, hdesc.scope_last h ⟨top, h.node?_root⟩, hout, ?_, ?_, ?_, ?_⟩
  · intro a ha hne
    exact (h.outward_contains hout hdesc.eq_or_contains a ha).resolve_left hne
  · intro child hchild
    exact hdesc.innermost child (mem_scopesIn.mp hchild)
  · intro i t hi ht
    rw [size_eq_ok (ho i t hi ht), width, spanOf_eq ht]
    rfl
  · intro a ha p hp
    rcases List.mem_append.mp ha with ha | ha
    · obtain ⟨q, hq, hclosest⟩ := hsteps a ha
      rw [outerScope?_of_parent hq] at hp
      cases hp
      exact hclosest
    · rw [List.mem_singleton.mp ha, outerScope?_of_parent h.parent_root] at hp
      cases hp

/-- Two scopes of one size cross, and the first of them, opened again, holds a smaller one. -/
theorem smallestScope_spec_crossing :
    let span (a b : Nat) : Span := ⟨⟨a, 0, a⟩, ⟨b, 0, b⟩⟩
    let events : List Event :=
      [.scopeStart (span 4 12), .scopeEnd .zero, .scopeStart (span 2 10), .scopeEnd .zero,
        .scopeStart (span 4 12), .scopeStart (span 5 9), .scopeEnd .zero, .scopeEnd .zero]
    let g : Graph :=
      ⟨[.scope (span 0 20), .scope (span 4 12), .scope (span 2 10), .scope (span 5 9)],
        [⟨1, 0, .scopeToScope⟩, ⟨2, 0, .scopeToScope⟩, ⟨3, 1, .scopeToScope⟩]⟩
    Graph.ofEvents (span 0 20) ⟨[]⟩ events = .ok g ∧
      (∀ s, .scopeStart s ∈ events → s.start.byte ≤ s.stop.byte) ∧
      g.smallestScope (span 6 7) = .ok 3 ∧ g.ClosestChild 0 (span 6 7) 1 ∧
      g.ClosestChild 1 (span 6 7) 3 := by
  intro span events g
  have hordered : ∀ s, .scopeStart s ∈ events → s.start.byte ≤ s.stop.byte := by
    intro s hs
    simp only [events, List.mem_cons, Event.scopeStart.injEq, reduceCtorEq, List.not_mem_nil,
      or_false, false_or] at hs
    rcases hs with rfl | rfl | rfl | rfl <;> simp [span]
  have hg : Graph.ofEvents (span 0 20) ⟨[]⟩ events = .ok g := by decide +kernel
  have hsmall : g.smallestScope (span 6 7) = .ok 3 := by decide +kernel
  obtain ⟨s, chain, hs, -, hout, -, -, -, hclosest⟩ := smallestScope_spec hg hordered (span 6 7)
  rw [hsmall] at hs
  cases hs
  have hthree : 3 ∈ chain := List.mem_of_head? hout.head?_eq
  have hone : 1 ∈ chain := (structured_ofEvents hg).parent_mem_outward hout hthree rfl
  exact ⟨hg, hordered, hsmall, hclosest 1 hone 0 rfl, hclosest 3 hthree 1 rfl⟩

/-! ### The chain around a node -/

theorem chainFrom_none (n : Nat) (seen : List Nat) : g.chainFrom n seen none = [] := by
  cases n <;> rfl

/-- **Neither the guard against repetition nor the bound cuts a chain short**: parents come
before their children, so none has been seen, and there are not more of them than positions. -/
theorem Structured.chainFrom_outward (h : g.Structured top) {scope : Nat} {chain : List Nat}
    (hout : g.Outward scope chain) : ∀ (n : Nat) (seen : List Nat), scope < n →
      (∀ a ∈ seen, scope < a) → g.chainFrom n seen (some scope) = chain := by
  induction hout with
  | root =>
    intro n seen hn hseen
    obtain ⟨n, rfl⟩ : ∃ k, n = k + 1 := ⟨n - 1, by omega⟩
    have hnew : root ∉ seen := fun hmem => Nat.lt_irrefl _ (hseen root hmem)
    rw [chainFrom, if_neg hnew, outerScope?_of_parent h.parent_root, chainFrom_none]
  | @step scope outer rest hparent _ ih =>
    intro n seen hn hseen
    obtain ⟨n, rfl⟩ : ∃ k, n = k + 1 := ⟨n - 1, by omega⟩
    have hlt := (h.of_parent hparent).1
    have hnew : scope ∉ seen := fun hmem => Nat.lt_irrefl _ (hseen scope hmem)
    have hrest := ih n (scope :: seen) (by omega) fun a ha => by
      rcases List.mem_cons.mp ha with rfl | ha
      · exact hlt
      · have := hseen a ha
        omega
    rw [chainFrom, if_neg hnew, outerScope?_of_parent hparent, hrest]

/-- **Every node has a home**: a scope that is the root or contains the node. -/
theorem Structured.exists_home (h : g.Structured top) (ho : g.ScopesOrdered) {i : Nat} {n : Node}
    (hn : g.node? i = some n) :
    ∃ home s, g.homeScope i = .ok (some home) ∧ g.node? home = some (.scope s) ∧
      (home = root ∨ s.contains n.span = true) := by
  cases n with
  | scope s =>
    refine ⟨i, s, by simp only [homeScope, hn], hn, Or.inr ?_⟩
    simp [Span.contains, Node.span]
  | definition | imported =>
    obtain ⟨p, kind, hkind, hedge, hhome⟩ := h.exists_declaring hn rfl
    obtain ⟨-, -, s, hs, hcontains⟩ := h.attached _ hedge (Relation.binds_of_declares _ hkind)
    rw [spanOf_eq hn] at hcontains
    exact ⟨p, s, hhome, hs, hcontains⟩
  | reference span name symbol =>
    obtain ⟨m, hm, hdesc⟩ := h.smallestScope_eq_ok ho span
    obtain ⟨s, hs⟩ := hdesc.scope_last h ⟨top, h.node?_root⟩
    refine ⟨m, s, ?_, hs, ?_⟩
    · simp only [homeScope, hn, hm]
      rfl
    · have hcases := hdesc.eq_or_contains
      rwa [spanOf_eq hs] at hcases

/-! ### What a look-up examines -/

/-- The look-up of a reference from `scope` outward, with a note of each scope it examines. -/
def lookupVisiting (g : Graph) (span : Span) (name : String) (symbol : Option SymbolIndex) :
    Nat → Nat → ExceptT Damage (StateM (List Nat)) (Option Binding)
  | 0, _ => throw (.endlessChain name span)
  | n + 1, scope => do
      modify (· ++ [scope])
      match g.choose? span.start.byte (← g.eligibleIn scope name symbol) with
      | some i => return some (g.bindingTo i)
      | none =>
          match ← g.parent scope with
          | some outer => lookupVisiting g span name symbol n outer
          | none => return none

/-- What a reference denotes, with a note of each scope that is examined to find it. -/
def bindingForVisiting (g : Graph) (i : Nat) : ExceptT Error (StateM (List Nat)) (Option Binding) :=
  match g.node? i with
  | some (.reference span name symbol) => do
      let scope ← Error.ofFault (g.smallestScope span)
      (g.lookupVisiting span name symbol g.order scope).adapt .damaged
  | _ => throw (.damaged (.notReference i))

section Run

variable {ε α β : Type} {notes : List Nat}

theorem run_modify_bind {f : List Nat → List Nat} {k : PUnit → ExceptT ε (StateM (List Nat)) β} :
    (modify f >>= k).run.run notes = (k ⟨⟩).run.run (f notes) := rfl

theorem run_ok_bind {a : α} {k : α → ExceptT ε (StateM (List Nat)) β} :
    (liftM (Except.ok a : Except ε α) >>= k).run.run notes = (k a).run.run notes := rfl

theorem run_adapt {ε' : Type} (f : ε → ε') (x : ExceptT ε (StateM (List Nat)) β) :
    (x.adapt f).run.run notes = ((x.run.run notes).1.mapError f, (x.run.run notes).2) := rfl

end Run

section Visiting

variable (span : Span) (name : String) (symbol : Option SymbolIndex)

theorem run_lookupVisiting : ∀ (n scope : Nat) (notes : List Nat),
    ((g.lookupVisiting span name symbol n scope).run.run notes).1 =
      g.lookup span name symbol n scope := by
  intro n
  induction n with
  | zero => intro scope notes; rfl
  | succ n ih =>
    intro scope notes
    rw [lookup, lookupVisiting, run_modify_bind]
    cases g.eligibleIn scope name symbol with
    | error damage => rfl
    | ok ws =>
      rw [run_ok_bind]
      simp only [bind, Except.bind]
      cases g.choose? span.start.byte ws with
      | some w => rfl
      | none =>
        cases g.parent scope with
        | error damage => rfl
        | ok outer =>
          cases outer with
          | none => rfl
          | some outer => exact ih outer (notes ++ [scope])

/-- **The notes do not change what a look-up finds.** -/
theorem run_bindingForVisiting (g : Graph) (i : Nat) (notes : List Nat) :
    ((g.bindingForVisiting i).run.run notes).1 = g.bindingFor i := by
  rw [bindingForVisiting, bindingFor]
  cases g.node? i with
  | none => rfl
  | some n =>
    cases n with
    | scope | definition | imported => rfl
    | reference span name symbol =>
      cases hs : g.smallestScope span with
      | error fault =>
        simp only [hs]
        rfl
      | ok scope =>
        simp only [hs]
        rw [Error.ofFault_ok, run_ok_bind, run_adapt, run_lookupVisiting]
        rfl

/-- A look-up examines the scopes of the chain in turn, up to the first that has a candidate;
if there is none, it examines all of them. -/
theorem Structured.visited_outward (h : g.Structured top) {scope : Nat} {chain : List Nat}
    (hout : g.Outward scope chain) : ∀ (n : Nat) (notes : List Nat), scope < n →
      ∃ visited, ((g.lookupVisiting span name symbol n scope).run.run notes).2 = notes ++ visited ∧
        visited <+: chain ∧ (g.lookup span name symbol n scope = .ok none → visited = chain) := by
  induction hout with
  | root =>
    intro n notes hn
    obtain ⟨n, rfl⟩ : ∃ k, n = k + 1 := ⟨n - 1, by omega⟩
    obtain ⟨ws, hws, -⟩ := h.eligibleIn_eq_ok root name symbol
    refine ⟨[root], ?_, List.prefix_rfl, fun _ => rfl⟩
    rw [lookupVisiting, run_modify_bind, hws, run_ok_bind]
    cases g.choose? span.start.byte ws with
    | some w => rfl
    | none =>
      simp only [h.parent_root]
      rfl
  | @step scope outer rest hparent hrest ih =>
    intro n notes hn
    obtain ⟨n, rfl⟩ : ∃ k, n = k + 1 := ⟨n - 1, by omega⟩
    have hlt := (h.of_parent hparent).1
    obtain ⟨ws, hws, -⟩ := h.eligibleIn_eq_ok scope name symbol
    rw [lookup, lookupVisiting, run_modify_bind, hws, run_ok_bind]
    simp only [bind, Except.bind]
    cases g.choose? span.start.byte ws with
    | some w =>
      refine ⟨[scope], rfl, ⟨rest, rfl⟩, ?_⟩
      intro hnone
      cases hnone
    | none =>
      obtain ⟨visited, hrun, hprefix, hall⟩ := ih n (notes ++ [scope]) (by omega)
      simp only [hparent]
      refine ⟨scope :: visited, ?_, (List.prefix_cons_inj scope).mpr hprefix, ?_⟩
      · rw [List.append_assoc] at hrun
        exact hrun
      · intro hnone
        rw [hall hnone]

end Visiting

/-! ### All nodes -/

/-- The chain leads from `home` to the root: each further scope is the parent of the one
before, none comes twice, and each but the root contains all those before it. -/
structure LeadsToRoot (g : Graph) (home : Nat) (chain : List Nat) : Prop where
  head : chain.head? = some home
  parents : chain.IsChain fun inner outer => g.outerScope? inner = some outer
  nodup : chain.Nodup
  last : chain.getLast? = some root
  /-- The chain ends there because there is no further parent. -/
  ended : g.outerScope? root = none
  contains : chain.Pairwise fun inner outer =>
    outer = root ∨ (g.spanOf outer).contains (g.spanOf inner) = true

namespace Structured

theorem leadsToRoot (h : g.Structured top) {home : Nat} {chain : List Nat}
    (hout : g.Outward home chain) : g.LeadsToRoot home chain where
  head := hout.head?_eq
  parents := hout.isChain
  nodup := h.nodup_outward hout
  last := hout.getLast?_eq
  ended := outerScope?_of_parent h.parent_root
  contains := h.pairwise_outward_contains hout

/-- The chain around a node is the chain outward from its home. -/
theorem ancestry_eq_ok (h : g.Structured top) {i home : Nat} {chain : List Nat}
    (hhome : g.homeScope i = .ok (some home)) (hlt : home < g.order)
    (hout : g.Outward home chain) : g.ancestry i = .ok chain := by
  have hchain := h.chainFrom_outward hout (g.order + 1) [] (by omega) (by simp)
  rw [ancestry, hhome, ← hchain]
  rfl

/-- A reference is looked up along the chain around it. -/
theorem visited_ancestry (h : g.Structured top) {i home : Nat} {n : Node} {chain : List Nat}
    (hn : g.node? i = some n) (href : n.isReference = true)
    (hhome : g.homeScope i = .ok (some home)) (hlt : home < g.order)
    (hout : g.Outward home chain) :
    ∃ visited, (g.bindingForVisiting i).run.run [] = (g.bindingFor i, visited) ∧
      visited <+: chain ∧ (g.bindingFor i = .ok none → visited = chain) := by
  cases n with
  | scope | definition | imported => cases href
  | reference span name symbol =>
    have hsmall : g.smallestScope span = .ok home := by
      simp only [homeScope, hn] at hhome
      cases hs : g.smallestScope span with
      | error fault =>
        rw [hs] at hhome
        cases hhome
      | ok m =>
        rw [hs] at hhome
        cases hhome
        rfl
    obtain ⟨visited, hrun, hprefix, hall⟩ := h.visited_outward span name symbol hout g.order [] hlt
    refine ⟨visited, ?_, hprefix, ?_⟩
    · refine Prod.ext (run_bindingForVisiting g i []) ?_
      simp only [bindingForVisiting, hn, hsmall]
      rw [Error.ofFault_ok, run_ok_bind, run_adapt]
      exact hrun
    · intro hnone
      rw [bindingFor_eq_lookup hn hsmall] at hnone
      apply hall
      cases hl : g.lookup span name symbol g.order home with
      | error damage =>
        rw [hl] at hnone
        cases hnone
      | ok result =>
        rw [hl] at hnone
        cases hnone
        rfl

end Structured

/-- **Chains of scopes reach the root.**  On every graph built from events whose scopes are
ordered, each node has a home, and the chain of scopes around the node leads from there to
the root.  Every scope of it but the root contains the node.  A reference is looked up in the
scopes of its chain, in order, and in all of them if it denotes nothing. -/
theorem ancestry_reaches_root {symbols : SymbolTable} {events : List Event}
    (hg : Graph.ofEvents top symbols events = .ok g)
    (hordered : ∀ s, .scopeStart s ∈ events → s.start.byte ≤ s.stop.byte) {i : Nat} {n : Node}
    (hn : g.node? i = some n) :
    ∃ home chain, g.homeScope i = .ok (some home) ∧ g.ancestry i = .ok chain ∧
      g.LeadsToRoot home chain ∧
      (∀ a ∈ chain, a = root ∨ (g.spanOf a).contains n.span = true) ∧
      (n.isReference = true →
        ∃ visited, (g.bindingForVisiting i).run.run [] = (g.bindingFor i, visited) ∧
          visited <+: chain ∧ (g.bindingFor i = .ok none → visited = chain)) := by
  have h := structured_ofEvents hg
  have ho : g.ScopesOrdered := InnerScopes.ofEvents hg hordered
  obtain ⟨home, s, hhome, hs, hcontains⟩ := h.exists_home ho hn
  obtain ⟨chain, hout⟩ := h.exists_outward home ⟨s, hs⟩
  have hlt : home < g.order := node?_lt hs
  refine ⟨home, chain, hhome, h.ancestry_eq_ok hhome hlt hout, h.leadsToRoot hout, ?_, ?_⟩
  · apply h.outward_contains hout
    rw [spanOf_eq hs]
    exact hcontains
  · intro href
    exact h.visited_ancestry hn href hhome hlt hout

/-- A reference in the inner one of two scopes, of which neither defines its name. -/
theorem ancestry_reaches_root_unresolved :
    let span (a b : Nat) : Span := ⟨⟨a, 0, a⟩, ⟨b, 0, b⟩⟩
    let events : List Event :=
      [.scopeStart (span 2 8), .scopeStart (span 3 7), .definition (span 4 5) "f" .hoisted none,
        .reference (span 5 6) "g" none, .scopeEnd .zero, .scopeEnd .zero]
    let g : Graph :=
      ⟨[.scope (span 0 9), .scope (span 2 8), .scope (span 3 7), .definition (span 4 5) "f" none,
          .reference (span 5 6) "g" none],
        [⟨1, 0, .scopeToScope⟩, ⟨2, 1, .scopeToScope⟩, ⟨3, 1, .definitionToScope⟩]⟩
    Graph.ofEvents (span 0 9) ⟨[]⟩ events = .ok g ∧
      (∀ s, .scopeStart s ∈ events → s.start.byte ≤ s.stop.byte) ∧
      g.node? 4 = some (.reference (span 5 6) "g" none) ∧
      g.ancestry 4 = .ok [2, 1, 0] ∧ g.LeadsToRoot 2 [2, 1, 0] ∧
      (g.bindingForVisiting 4).run.run [] = (.ok none, [2, 1, 0]) := by
  intro span events g
  have hordered : ∀ s, .scopeStart s ∈ events → s.start.byte ≤ s.stop.byte := by
    intro s hs
    simp only [events, List.mem_cons, Event.scopeStart.injEq, reduceCtorEq, List.not_mem_nil,
      or_false] at hs
    rcases hs with rfl | rfl <;> simp [span]
  have hg : Graph.ofEvents (span 0 9) ⟨[]⟩ events = .ok g := by decide +kernel
  have hn : g.node? 4 = some (.reference (span 5 6) "g" none) := rfl
  have hchain : g.ancestry 4 = .ok [2, 1, 0] := by decide +kernel
  have hnone : g.bindingFor 4 = .ok none := by decide +kernel
  obtain ⟨home, chain, -, hchain', hleads, -, hvisits⟩ := ancestry_reaches_root hg hordered hn
  rw [hchain] at hchain'
  cases hchain'
  obtain rfl : 2 = home := Option.some.inj hleads.head
  obtain ⟨visited, hrun, -, hall⟩ := hvisits rfl
  rw [hall hnone, hnone] at hrun
  exact ⟨hg, hordered, hn, hchain, hleads, hrun⟩

end Graph
end NameBinding
