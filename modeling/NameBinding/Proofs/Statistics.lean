import Mathlib.Data.List.Nodup
import NameBinding.Proofs.OutlineContents
import NameBinding.Proofs.Usages

/-!
# Statistics agree

Two summaries are taken of a graph.  One counts its nodes and edges by their kinds, the other
asks each reference what it is bound to.  They agree as long as only references are bound, and
only to declarations: then each binding is that of one reference, and each edge but the
bindings attaches one node.

## Main definitions

* `Graph.Accounted` — the size of a graph accounts for all of it.
* `BindingCounts.AgreesWith` — the outcome of resolving agrees with the size of a graph.
* `BindingCall.BindsNames` — the call binds only references, and only to declarations.

## Main results

* `Structured.countP_scope_edges` — every scope but the root is attached once.
* `SingleBindings.perm_bound` — the sources of bindings are the references that are bound.
* `BindsNames.performAll` — what holds of each call holds of all bindings.
* `counts_agree_performAll` — **after any such calls, both summaries account for everything,
  and they agree.**
-/

namespace NameBinding

/-! ### What is counted -/

/-- The size of a graph accounts for all of it: each node is of one kind, each edge attaches
a node or binds a reference, and the references that are not bound are those that are left. -/
structure Graph.Accounted (g : Graph) : Prop where
  nodes : g.counts.scopes + g.counts.definitions + g.counts.imports + g.counts.references = g.order
  scopes_pos : 0 < g.counts.scopes
  edges : g.counts.edges =
    (g.counts.scopes - 1) + g.counts.definitions + g.counts.imports + g.counts.resolved
  unresolved : g.counts.unresolved = .ok g.unboundReferences.length

/-- The outcome of resolving agrees with the size of a graph.  The number of bound references
is given as long as it is a size at all. -/
structure BindingCounts.AgreesWith (s : BindingCounts) (size : GraphCounts) : Prop where
  parts : s.references = s.toDefinitions + s.toImports + s.unresolved
  references : s.references = size.references
  bound : s.toDefinitions + s.toImports = size.resolved
  resolved : size.resolved < Size.bound → s.resolved = .ok size.resolved
  unresolved : size.unresolved = .ok s.unresolved

/-- The call binds only references, and only to definitions and imports. -/
def BindingCall.BindsNames (g : Graph) : BindingCall → Prop
  | .bind reference binding => g.BindsName ⟨reference, binding⟩
  | .bindAll bindings => ∀ b ∈ bindings, g.BindsName b
  | .resolve => True

namespace Graph

/-- A node is of one of four kinds. -/
theorem countP_kinds (ns : List Node) :
    ns.countP Node.isScope + ns.countP Node.isDefinition + ns.countP Node.isImport +
      ns.countP Node.isReference = ns.length := by
  have hone : ∀ n : Node, (if n.isScope = true then 1 else 0) +
      (if n.isDefinition = true then 1 else 0) + (if n.isImport = true then 1 else 0) +
      (if n.isReference = true then 1 else 0) = 1 := by
    intro n
    cases n <;> rfl
  induction ns with
  | nil => rfl
  | cons n ns ih =>
    have hn := hone n
    simp only [List.countP_cons, List.length_cons]
    omega

/-- An edge is of one of three kinds, or a binding. -/
theorem countP_relations (es : List Edge) :
    (es.countP fun e => e.kind == .scopeToScope) +
      (es.countP fun e => e.kind == .definitionToScope) +
      (es.countP fun e => e.kind == .importToScope) + (es.countP fun e => e.kind.binds) =
      es.length := by
  have hone : ∀ kind : Relation, (if (kind == .scopeToScope) = true then 1 else 0) +
      (if (kind == .definitionToScope) = true then 1 else 0) +
      (if (kind == .importToScope) = true then 1 else 0) +
      (if kind.binds = true then 1 else 0) = 1 := by
    intro kind
    cases kind <;> rfl
  induction es with
  | nil => rfl
  | cons e es ih =>
    have he := hone e.kind
    simp only [List.countP_cons, List.length_cons]
    omega

/-- Every reference is bound to a definition, to an import, or to neither. -/
theorem countP_boundNode? (g : Graph) (is : List Nat) :
    (is.countP fun i => (g.boundNode? i).any Node.isDefinition) +
      (is.countP fun i => (g.boundNode? i).any Node.isImport) +
      (is.countP fun i => !(g.boundNode? i).any Node.declaresName) = is.length := by
  have hone : ∀ o : Option Node, (if o.any Node.isDefinition = true then 1 else 0) +
      (if o.any Node.isImport = true then 1 else 0) +
      (if (!o.any Node.declaresName) = true then 1 else 0) = 1 := by
    intro o
    cases o with
    | none => rfl
    | some n => cases n <;> rfl
  induction is with
  | nil => rfl
  | cons i is ih =>
    have hi := hone (g.boundNode? i)
    simp only [List.countP_cons, List.length_cons]
    omega

theorem attachment_eq_scopeToScope_iff {n : Node} :
    n.attachment = some .scopeToScope ↔ n.isScope = true := by
  cases n <;> simp [Node.attachment, Node.isScope]

/-- Every scope but the root is attached once. -/
theorem Structured.countP_scope_edges {top : Span} {g : Graph} (h : g.Structured top) :
    (g.edges.countP fun e => e.kind == .scopeToScope) + 1 = g.nodes.countP Node.isScope := by
  have hroot : root ∈ g.positions Node.isScope := mem_positions.mpr ⟨_, h.node?_root, rfl⟩
  have hperm := h.perm_attached rfl attachment_eq_scopeToScope_iff
  rw [← (g.nodup_positions _).erase_eq_filter] at hperm
  have hlength := hperm.length_eq
  rw [List.length_map, List.length_erase_of_mem hroot, length_positions,
    ← List.countP_eq_length_filter] at hlength
  have hpos := List.length_pos_of_mem hroot
  rw [length_positions] at hpos
  omega

section Bindings

variable {g : Graph}

/-- **The sources of bindings are the references that are bound**, each of them once. -/
theorem SingleBindings.perm_bound (h : g.SingleBindings) (hnames : g.BindsNames) :
    ((g.edges.filter fun e => e.kind.binds).map Edge.source).Perm
      (g.references.filter fun i => (g.boundTo? i).isSome) := by
  have hnodup : ((g.edges.filter fun e => e.kind.binds).map Edge.source).Nodup := by
    rw [List.nodup_iff_count_le_one]
    intro i
    have hone := h i
    rw [outgoing, List.length_map] at hone
    exact Nat.le_trans (g.count_sources_le i fun _ => id) hone
  have hreferences : g.references.Nodup := g.nodup_positions _
  rw [List.perm_ext_iff_of_nodup hnodup (hreferences.filter _)]
  intro i
  rw [List.mem_map, List.mem_filter, isSome_boundTo?_iff]
  constructor
  · rintro ⟨e, he, rfl⟩
    obtain ⟨he, hbinds⟩ := List.mem_filter.mp he
    exact ⟨mem_references.mpr (hnames e he hbinds).1, e, he, rfl, hbinds⟩
  · rintro ⟨-, e, he, hsource, hbinds⟩
    exact ⟨e, List.mem_filter.mpr ⟨he, hbinds⟩, hsource⟩

/-- The bindings and the references that are not bound add up to all references. -/
theorem SingleBindings.countP_binds (h : g.SingleBindings) (hnames : g.BindsNames) :
    (g.edges.countP fun e => e.kind.binds) + g.unboundReferences.length =
      g.references.length := by
  have hlength := (h.perm_bound hnames).length_eq
  rw [List.length_map, ← List.countP_eq_length_filter, ← List.countP_eq_length_filter] at hlength
  have hsplit := List.length_eq_countP_add_countP (fun i => (g.boundTo? i).isSome)
    (l := g.references)
  rw [hlength, hsplit, unboundReferences, ← List.countP_eq_length_filter]
  congr 1
  refine List.countP_congr fun i _ => ?_
  simp

/-- A reference is bound to a declaration if it is bound at all. -/
theorem SingleBindings.boundNode?_any (h : g.SingleBindings) (hnames : g.BindsNames) (i : Nat) :
    (g.boundNode? i).any Node.declaresName = (g.boundTo? i).isSome := by
  unfold boundNode?
  cases hw : g.boundTo? i with
  | none => rfl
  | some w =>
    obtain ⟨e, he, -, rfl, hbinds⟩ := h.exists_edge hw
    obtain ⟨-, n, hn, hdecl⟩ := hnames e he hbinds
    simp [hn, hdecl]

theorem SingleBindings.unresolved_eq (h : g.SingleBindings) (hnames : g.BindsNames) :
    g.bindingCounts.unresolved = g.unboundReferences.length := by
  simp only [bindingCounts, h.boundNode?_any hnames, unboundReferences,
    ← List.countP_eq_length_filter, Option.not_isSome]

/-- The references that are not bound are those that are left. -/
theorem SingleBindings.counts_unresolved (h : g.SingleBindings) (hnames : g.BindsNames) :
    g.counts.unresolved = .ok g.unboundReferences.length := by
  have hsum := h.countP_binds hnames
  rw [references, length_positions] at hsum
  have hresolved : g.counts.resolved + g.unboundReferences.length = g.counts.references := hsum
  rw [GraphCounts.unresolved, Size.sub, if_pos (by omega)]
  congr 1
  omega

/-- **The size of a graph accounts for all of it.** -/
theorem Structured.accounted {top : Span} (h : g.Structured top) (hsingle : g.SingleBindings)
    (hnames : g.BindsNames) : g.Accounted where
  nodes := countP_kinds g.nodes
  scopes_pos := by
    have hscopes : _ = g.counts.scopes := h.countP_scope_edges
    omega
  edges := by
    have hscopes : _ = g.counts.scopes := h.countP_scope_edges
    have hdefs : _ = g.counts.definitions := h.countP_edges rfl attachment_eq_definitionToScope
    have himports : _ = g.counts.imports := h.countP_edges rfl attachment_eq_importToScope
    have hall : _ = g.counts.edges := countP_relations g.edges
    have hbinds : (g.edges.countP fun e => e.kind.binds) = g.counts.resolved := rfl
    omega
  unresolved := hsingle.counts_unresolved hnames

/-- **The two summaries of a graph agree.** -/
theorem SingleBindings.agreesWith (h : g.SingleBindings) (hnames : g.BindsNames) :
    g.bindingCounts.AgreesWith g.counts := by
  have hparts : g.bindingCounts.toDefinitions + g.bindingCounts.toImports +
      g.bindingCounts.unresolved = g.bindingCounts.references := g.countP_boundNode? g.references
  have hbinds : g.counts.resolved + g.unboundReferences.length = g.bindingCounts.references :=
    h.countP_binds hnames
  have hunresolved := h.unresolved_eq hnames
  have hbound : g.bindingCounts.toDefinitions + g.bindingCounts.toImports = g.counts.resolved := by
    omega
  refine ⟨hparts.symm, g.length_positions _, hbound, ?_, ?_⟩
  · intro hsize
    rw [BindingCounts.resolved, Size.add, hbound, if_pos hsize]
  · rw [hunresolved, h.counts_unresolved hnames]

end Bindings

/-! ### Calls that bind names -/

theorem BindsName.of_extends {g g' : Graph} (h : g.Extends g') {b : BoundReference}
    (hb : g.BindsName b) : g'.BindsName b := by
  unfold BindsName at hb ⊢
  rwa [h.node?_eq, h.node?_eq]

theorem BindsName.lt {g : Graph} {b : BoundReference} (hb : g.BindsName b) :
    b.reference < g.order ∧ b.binding.node < g.order := by
  obtain ⟨⟨_, hr, -⟩, ⟨_, hn, -⟩⟩ := hb
  exact ⟨node?_lt hr, node?_lt hn⟩

end Graph

theorem BindingCall.BindsNames.of_extends {g g' : Graph} (h : g.Extends g') {call : BindingCall}
    (hcall : call.BindsNames g) : call.BindsNames g' := by
  cases call with
  | bind reference binding => exact Graph.BindsName.of_extends h hcall
  | bindAll bindings => exact fun b hb => Graph.BindsName.of_extends h (hcall b hb)
  | resolve => trivial

namespace Graph

namespace BindsNames

variable {top : Span} {g : Graph}

/-- A call that binds names adds no other bindings. -/
theorem perform (hnames : g.BindsNames) (h : g.Structured top) (ho : g.ScopesOrdered)
    {call : BindingCall} (hcall : call.BindsNames g) : (g.perform call).BindsNames := by
  cases call with
  | bind reference binding =>
    rw [perform_bind]
    refine hnames.bindAll fun b hb => ?_
    rw [List.mem_singleton.mp hb]
    exact hcall
  | bindAll bindings => exact hnames.bindAll hcall
  | resolve =>
    rcases g.perform_resolve_cases with hsame | ⟨bs, hall, hbs⟩
    · rw [hsame]
      exact hnames
    · rw [(h.allBindings_eq_ok ho).1] at hall
      cases hall
      rw [hbs]
      exact hnames.bindAll fun b hb => h.bindsName_of_mem_meanings ho hb

theorem performAll (hnames : g.BindsNames) (h : g.Structured top) (ho : g.ScopesOrdered)
    {calls : List BindingCall} (hcalls : ∀ call ∈ calls, call.BindsNames g) :
    (g.performAll calls).BindsNames := by
  induction calls generalizing g with
  | nil => exact hnames
  | cons call calls ih =>
    have hext := extends_perform g call
    refine ih (hnames.perform h ho (hcalls call (List.mem_cons_self ..))) (hext.structured h)
      (hext.innerScopes ho) fun call' hcall' => ?_
    exact (hcalls call' (List.mem_cons_of_mem _ hcall')).of_extends hext

end BindsNames

namespace Structured

variable {top : Span} {g : Graph}

/-- A batch that binds names is recorded, and the outcome agrees with what is there then. -/
theorem bindAll_agrees (h : g.Structured top) (hsingle : g.SingleBindings) (hnames : g.BindsNames)
    {bs : List BoundReference} (hbs : ∀ b ∈ bs, g.BindsName b) :
    ∃ g' counts, g.bindAll bs = (g', .ok counts) ∧ g'.Accounted ∧
      counts.AgreesWith g'.counts := by
  have hok := (bindAll_eq_ok bs g fun b hb => (hbs b hb).lt).1
  have h' := (extends_bindAll bs g).structured h
  have hsingle' := hsingle.bindAll bs
  have hnames' := hnames.bindAll hbs
  exact ⟨_, _, Prod.ext rfl hok, h'.accounted hsingle' hnames', hsingle'.agreesWith hnames'⟩

/-- Resolving is recording such a batch. -/
theorem resolve_agrees (h : g.Structured top) (ho : g.ScopesOrdered) (hsingle : g.SingleBindings)
    (hnames : g.BindsNames) :
    ∃ g' counts, g.resolve = .ok (g', counts) ∧ g'.Accounted ∧ counts.AgreesWith g'.counts := by
  obtain ⟨g', -, hresolve, -⟩ := h.resolve_eq_ok ho
  obtain ⟨bs, hall, hbs⟩ := bindAll_of_resolve hresolve
  rw [(h.allBindings_eq_ok ho).1] at hall
  cases hall
  obtain ⟨_, _, hbs', haccounted, hagrees⟩ :=
    h.bindAll_agrees hsingle hnames fun b hb => h.bindsName_of_mem_meanings ho hb
  rw [hbs] at hbs'
  cases hbs'
  exact ⟨_, _, hresolve, haccounted, hagrees⟩

end Structured

/-- **The two summaries agree and account for everything.**  Take any graph built from events
whose scopes are ordered, and any calls that bind references to definitions and imports, by
whichever kind of edge, or that resolve.  The size of the graph accounts for all its nodes and
edges, and for the references that are not bound.  A batch of such bindings that is recorded
next, and resolving, succeed, and the outcome that is reported agrees with the size of the
graph at that moment. -/
theorem counts_agree_performAll {top : Span} {symbols : SymbolTable} {events : List Event}
    {g : Graph} (hg : Graph.ofEvents top symbols events = .ok g)
    (hordered : ∀ s, .scopeStart s ∈ events → s.start.byte ≤ s.stop.byte)
    {calls : List BindingCall} (hcalls : ∀ call ∈ calls, call.BindsNames g) :
    (g.performAll calls).Accounted ∧
      (∀ bs, (∀ b ∈ bs, g.BindsName b) → ∃ g' counts,
        (g.performAll calls).bindAll bs = (g', .ok counts) ∧ g'.Accounted ∧
          counts.AgreesWith g'.counts) ∧
      ∃ g' counts, (g.performAll calls).resolve = .ok (g', counts) ∧ g'.Accounted ∧
        counts.AgreesWith g'.counts := by
  have hext := extends_performAll calls g
  have hstart := structured_ofEvents hg
  have hscopes : g.ScopesOrdered := InnerScopes.ofEvents hg hordered
  have hfree := unbound_ofEvents hg
  have h := hext.structured hstart
  have hsingle := hfree.singleBindings.performAll calls
  have hnames := hfree.bindsNames.performAll hstart hscopes hcalls
  refine ⟨h.accounted hsingle hnames, ?_,
    h.resolve_agrees (hext.innerScopes hscopes) hsingle hnames⟩
  intro bs hbs
  exact h.bindAll_agrees hsingle hnames fun b hb => (hbs b hb).of_extends hext

/-- One reference is bound by hand to an import it does not mean, by an edge of the wrong kind;
then one is resolved, and one stays without a binding. -/
theorem counts_agree_performAll_mismatched :
    let span (a b : Nat) : Span := ⟨⟨a, 0, a⟩, ⟨b, 0, b⟩⟩
    let events : List Event :=
      [.scopeStart (span 0 9), .definition (span 1 2) "f" .hoisted none,
        .imported (span 2 3) "g", .reference (span 4 5) "f" none, .reference (span 5 6) "f" none,
        .reference (span 7 8) "h" none, .scopeEnd .zero]
    let g : Graph :=
      ⟨[.scope (span 0 10), .scope (span 0 9), .definition (span 1 2) "f" none,
          .imported (span 2 3) "g", .reference (span 4 5) "f" none,
          .reference (span 5 6) "f" none, .reference (span 7 8) "h" none],
        [⟨1, 0, .scopeToScope⟩, ⟨2, 0, .definitionToScope⟩, ⟨3, 1, .importToScope⟩]⟩
    let calls : List BindingCall := [.bind 4 (.definition 3)]
    let g' : Graph := { g with edges := g.edges ++ [⟨4, 3, .referenceToDefinition⟩,
      ⟨5, 2, .referenceToDefinition⟩] }
    Graph.ofEvents (span 0 10) ⟨[]⟩ events = .ok g ∧
      (∀ s, .scopeStart s ∈ events → s.start.byte ≤ s.stop.byte) ∧
      (∀ call ∈ calls, call.BindsNames g) ∧ (g.performAll calls).Accounted ∧
      (g.performAll calls).resolve = .ok (g', ⟨3, 1, 1, 1⟩) ∧
      g'.counts = ⟨2, 1, 1, 3, 2, 5⟩ ∧ g'.Accounted ∧
      BindingCounts.AgreesWith ⟨3, 1, 1, 1⟩ g'.counts := by
  intro span events g calls g'
  have hordered : ∀ s, .scopeStart s ∈ events → s.start.byte ≤ s.stop.byte := by
    intro s hs
    simp only [events, List.mem_cons, Event.scopeStart.injEq, reduceCtorEq, List.not_mem_nil,
      or_false] at hs
    simp [hs, span]
  have hg : Graph.ofEvents (span 0 10) ⟨[]⟩ events = .ok g := by decide +kernel
  have hcalls : ∀ call ∈ calls, call.BindsNames g := by
    intro call hcall
    rw [List.mem_singleton.mp hcall]
    exact ⟨⟨_, rfl, rfl⟩, ⟨_, rfl, rfl⟩⟩
  have hfirst : (g.performAll calls).resolve = .ok (g', ⟨3, 1, 1, 1⟩) := by decide +kernel
  obtain ⟨haccounted, -, _, _, hresolve, haccounted', hagrees⟩ :=
    counts_agree_performAll hg hordered hcalls
  rw [hfirst] at hresolve
  cases hresolve
  exact ⟨hg, hordered, hcalls, haccounted, hfirst, by decide +kernel, haccounted', hagrees⟩

end Graph
end NameBinding
