import NameBinding.Graph.Binding
import NameBinding.Graph.Scope

/-!
# The structure of a scope graph

Apart from bindings, every edge of a scope graph attaches a node to the scope it
lies in.  The edges that do so form a tree: the root is attached to nothing, every
other scope, definition or import to exactly one scope that was there before it,
and references to none.

## Main definitions

* `Node.attachment` — the kind of edge that attaches a node.
* `Graph.attachments` — the edges out of a node that are no bindings.
* `Graph.Structured` — the graph is a tree of scopes with declarations, and spans
  follow the tree.

## Main results

* `Structured.ofRoot`, `Structured.addInside`, `Structured.withReference`,
  `Structured.addBindings` — what starts as a structured graph stays one.
* `Structured.attachments_of_edge` — a node has no attachment but its one edge.
* `Structured.parent_eq_ok_iff` — the parent of a scope is where its edge leads.
-/

namespace NameBinding

theorem Relation.binds_of_beq {k : Relation} (hk : k.binds = false) :
    ∀ kind, (kind == k) = true → kind.binds = false := by
  intro kind h
  rwa [beq_iff_eq.mp h]

theorem Relation.binds_of_declares : ∀ kind : Relation, kind.declares = true → kind.binds = false := by
  intro kind h
  cases kind <;> first | rfl | simp [declares] at h

theorem Relation.binds_iff {kind : Relation} :
    kind.binds = true ↔ kind = .referenceToDefinition ∨ kind = .referenceToImport := by
  cases kind <;> simp [binds]

/-- The kind of the edge that attaches a node to the scope it lies in; references
are not attached. -/
def Node.attachment : Node → Option Relation
  | .scope _ => some .scopeToScope
  | .definition .. => some .definitionToScope
  | .imported .. => some .importToScope
  | .reference .. => none

theorem Node.binds_of_attachment {n : Node} {kind : Relation} (h : n.attachment = some kind) :
    kind.binds = false := by
  cases n <;> simp only [attachment, Option.some.injEq, reduceCtorEq] at h <;> subst h <;> rfl

theorem Node.attachment_eq_scopeToScope {n : Node} (h : n.attachment = some .scopeToScope) :
    ∃ s, n = .scope s := by
  cases n <;> simp_all [attachment]

namespace Graph

/-! ### Nodes and edges of a grown graph -/

theorem node?_lt {g : Graph} {i : Nat} {n : Node} (h : g.node? i = some n) : i < g.order := by
  obtain ⟨hlt, -⟩ := List.getElem?_eq_some_iff.mp h
  exact hlt

theorem spanOf_eq {g : Graph} {i : Nat} {n : Node} (h : g.node? i = some n) :
    g.spanOf i = n.span := by
  simp [spanOf, h]

@[simp] theorem order_addInside (g : Graph) (n : Node) (kind : Relation) (p : Nat) :
    (g.addInside n kind p).order = g.order + 1 := by
  simp [addInside, order]

@[simp] theorem edges_addInside (g : Graph) (n : Node) (kind : Relation) (p : Nat) :
    (g.addInside n kind p).edges = g.edges ++ [⟨g.order, p, kind⟩] := rfl

@[simp] theorem edges_withReference (g : Graph) (span : Span) (name : String)
    (symbol : Option SymbolIndex) : (g.withReference span name symbol).edges = g.edges := rfl

/-- A node more leaves the nodes before it alone. -/
theorem getElem?_append_singleton {α : Type} (as : List α) (a : α) (i : Nat) :
    (as ++ [a])[i]? = if i = as.length then some a else as[i]? := by
  split
  · next h => subst h; simp
  · next h =>
    rcases Nat.lt_or_gt_of_ne h with hlt | hgt
    · rw [List.getElem?_append_left hlt]
    · rw [List.getElem?_eq_none (by simp; omega), List.getElem?_eq_none (by omega)]

theorem node?_addInside (g : Graph) (n : Node) (kind : Relation) (p i : Nat) :
    (g.addInside n kind p).node? i = if i = g.order then some n else g.node? i :=
  getElem?_append_singleton g.nodes n i

theorem node?_withReference (g : Graph) (span : Span) (name : String)
    (symbol : Option SymbolIndex) (i : Nat) :
    (g.withReference span name symbol).node? i =
      if i = g.order then some (.reference span name symbol) else g.node? i :=
  getElem?_append_singleton g.nodes _ i

theorem node?_addInside_of_lt {g : Graph} {n : Node} {kind : Relation} {p i : Nat}
    (h : i < g.order) : (g.addInside n kind p).node? i = g.node? i := by
  rw [node?_addInside, if_neg (by omega)]

theorem spanOf_addInside_of_lt {g : Graph} {n : Node} {kind : Relation} {p i : Nat}
    (h : i < g.order) : (g.addInside n kind p).spanOf i = g.spanOf i := by
  rw [spanOf, node?_addInside_of_lt h, spanOf]

@[simp] theorem spanOf_addInside_order (g : Graph) (n : Node) (kind : Relation) (p : Nat) :
    (g.addInside n kind p).spanOf g.order = n.span := by
  simp [spanOf, node?_addInside]

theorem node?_withReference_of_lt {g : Graph} {span : Span} {name : String}
    {symbol : Option SymbolIndex} {i : Nat} (h : i < g.order) :
    (g.withReference span name symbol).node? i = g.node? i := by
  rw [node?_withReference, if_neg (by omega)]

theorem spanOf_withReference_of_lt {g : Graph} {span : Span} {name : String}
    {symbol : Option SymbolIndex} {i : Nat} (h : i < g.order) :
    (g.withReference span name symbol).spanOf i = g.spanOf i := by
  rw [spanOf, node?_withReference_of_lt h, spanOf]

theorem mem_incoming {g : Graph} {i j : Nat} {p : Relation → Bool} :
    j ∈ g.incoming i p ↔ ∃ e ∈ g.edges, e.source = j ∧ e.target = i ∧ p e.kind := by
  simp only [incoming, List.mem_map, List.mem_filter, Bool.and_eq_true, beq_iff_eq]
  constructor
  · rintro ⟨e, ⟨he, ht, hk⟩, hs⟩; exact ⟨e, he, hs, ht, hk⟩
  · rintro ⟨e, he, hs, ht, hk⟩; exact ⟨e, ⟨he, ht, hk⟩, hs⟩

theorem mem_incoming_beq {g : Graph} {p w : Nat} {kind : Relation} :
    w ∈ g.incoming p (· == kind) ↔ (⟨w, p, kind⟩ : Edge) ∈ g.edges := by
  rw [mem_incoming]
  constructor
  · rintro ⟨⟨_, _, kind'⟩, he, rfl, rfl, hk⟩
    obtain rfl : kind' = kind := beq_iff_eq.mp hk
    exact he
  · intro he
    exact ⟨_, he, rfl, rfl, by simp⟩

/-! ### Attachments -/

/-- The edges out of a node that are no bindings. -/
def attachments (g : Graph) (i : Nat) : List Edge :=
  g.edges.filter fun e => e.source == i && !e.kind.binds

theorem mem_attachments {g : Graph} {i : Nat} {e : Edge} :
    e ∈ g.attachments i ↔ e ∈ g.edges ∧ e.source = i ∧ e.kind.binds = false := by
  simp [attachments]

/-- Looking for edges of kinds that are no bindings, only attachments are found. -/
theorem outgoing_eq_attachments (g : Graph) (i : Nat) {p : Relation → Bool}
    (hp : ∀ kind, p kind = true → kind.binds = false) :
    g.outgoing i p = ((g.attachments i).filter fun e => p e.kind).map Edge.target := by
  unfold outgoing attachments
  rw [List.filter_filter]
  congr 1
  refine List.filter_congr fun e _ => ?_
  cases hk : p e.kind
  · simp
  · simp [hp _ hk]

/-- Edges that are only bindings attach nothing. -/
theorem attachments_append_bindings {g : Graph} {es : List Edge}
    (h : ∀ e ∈ es, e.kind.binds = true) (i : Nat) :
    ({ g with edges := g.edges ++ es } : Graph).attachments i = g.attachments i := by
  have hnone : es.filter (fun e => e.source == i && !e.kind.binds) = [] :=
    List.filter_eq_nil_iff.mpr fun e he => by simp [h e he]
  simp [attachments, hnone]

theorem attachments_addInside (g : Graph) (n : Node) {kind : Relation} (p i : Nat)
    (hkind : kind.binds = false) :
    (g.addInside n kind p).attachments i =
      g.attachments i ++ if i = g.order then [⟨g.order, p, kind⟩] else [] := by
  by_cases hi : i = g.order
  · simp [attachments, hi, hkind]
  · simp [attachments, hi, Ne.symm hi]

/-! ### Structured graphs -/

/-- The graph is a tree of scopes with declarations: the root scope has the span
`top` and is attached to nothing, every other node by exactly the edge its kind asks
for, to an earlier scope that is the root or contains it.  No scope has the span of
its parent or of a sibling. -/
structure Structured (top : Span) (g : Graph) : Prop where
  node?_root : g.node? root = some (.scope top)
  attachments_root : g.attachments root = []
  attachments_kind : ∀ i n, i ≠ root → g.node? i = some n →
    (g.attachments i).map Edge.kind = n.attachment.toList
  attached : ∀ e ∈ g.edges, e.kind.binds = false →
    e.target < e.source ∧ e.source < g.order ∧
      ∃ s, g.node? e.target = some (.scope s) ∧ (e.target = root ∨ s.contains (g.spanOf e.source))
  span_ne_parent : ∀ e ∈ g.edges, e.kind = .scopeToScope → g.spanOf e.source ≠ g.spanOf e.target
  siblings_ne : ∀ e ∈ g.edges, ∀ e' ∈ g.edges, e.kind = .scopeToScope → e'.kind = .scopeToScope →
    e.target = e'.target → e.source ≠ e'.source → g.spanOf e.source ≠ g.spanOf e'.source

/-- The node may be attached to the scope `p`: it is the root or contains the node,
and a scope repeats neither its span nor that of one of its children. -/
structure Fits (g : Graph) (n : Node) (p : Nat) : Prop where
  scope : ∃ s, g.node? p = some (.scope s) ∧ (p = root ∨ s.contains n.span)
  fresh : n.isScope → g.spanOf p ≠ n.span ∧
    ∀ e ∈ g.edges, e.kind = .scopeToScope → e.target = p → g.spanOf e.source ≠ n.span

namespace Structured

variable {top : Span} {g : Graph}

theorem root_lt (h : g.Structured top) : root < g.order := node?_lt h.node?_root

/-- Edges that are no bindings lead between nodes of the graph. -/
theorem edge_lt (h : g.Structured top) {e : Edge} (he : e ∈ g.edges)
    (hbinds : e.kind.binds = false) : e.source < g.order ∧ e.target < g.order := by
  obtain ⟨hts, hso, -⟩ := h.attached e he hbinds
  exact ⟨hso, by omega⟩

/-- Nothing is attached yet to the position of the next node. -/
theorem attachments_order (h : g.Structured top) : g.attachments g.order = [] := by
  refine List.eq_nil_iff_forall_not_mem.mpr fun e he => ?_
  obtain ⟨hmem, hsource, hbinds⟩ := mem_attachments.mp he
  have hlt := (h.attached e hmem hbinds).2.1
  omega

theorem ofRoot (top : Span) : (Graph.ofRoot top).Structured top where
  node?_root := rfl
  attachments_root := rfl
  attachments_kind := by
    intro i n hi hn
    have hlt := node?_lt hn
    simp only [order, Graph.ofRoot, List.length_singleton, root] at hlt hi
    omega
  attached := by simp [Graph.ofRoot]
  span_ne_parent := by simp [Graph.ofRoot]
  siblings_ne := by simp [Graph.ofRoot]

/-- The attachments of a graph with a node more. -/
private theorem attached_addInside (h : g.Structured top) {n : Node} {kind : Relation} {p : Nat}
    (hfits : g.Fits n p) :
    ∀ e ∈ (g.addInside n kind p).edges, e.kind.binds = false →
      e.target < e.source ∧ e.source < (g.addInside n kind p).order ∧
        ∃ s, (g.addInside n kind p).node? e.target = some (.scope s) ∧
          (e.target = root ∨ s.contains ((g.addInside n kind p).spanOf e.source)) := by
  intro e he hbinds
  rw [edges_addInside, List.mem_append, List.mem_singleton] at he
  rw [order_addInside]
  rcases he with he | rfl
  · -- an edge that was there before
    obtain ⟨hts, hso, s, hs, hcontains⟩ := h.attached e he hbinds
    refine ⟨hts, by omega, s, ?_, ?_⟩
    · rw [node?_addInside_of_lt (by omega), hs]
    · rwa [spanOf_addInside_of_lt hso]
  · -- the edge of the new node
    obtain ⟨s, hs, hcontains⟩ := hfits.scope
    have hlt : p < g.order := node?_lt hs
    refine ⟨hlt, by simp, s, ?_, ?_⟩
    · rw [node?_addInside_of_lt hlt, hs]
    · simpa using hcontains

theorem addInside (h : g.Structured top) {n : Node} {kind : Relation} {p : Nat}
    (hkind : n.attachment = some kind) (hfits : g.Fits n p) :
    (g.addInside n kind p).Structured top := by
  have hbinds := Node.binds_of_attachment hkind
  have hroot := h.root_lt
  -- scope edges start at the new node only if it is a scope
  have hscope : kind = .scopeToScope → n.isScope = true := by
    rintro rfl
    obtain ⟨s, rfl⟩ := Node.attachment_eq_scopeToScope hkind
    rfl
  have hlt : ∀ e ∈ g.edges, e.kind = .scopeToScope → e.source < g.order ∧ e.target < g.order :=
    fun e he hk => h.edge_lt he (by rw [hk]; rfl)
  obtain ⟨sp, hsp, -⟩ := hfits.scope
  have hp : p < g.order := node?_lt hsp
  refine ⟨?_, ?_, ?_, attached_addInside h hfits, ?_, ?_⟩
  · rw [node?_addInside_of_lt hroot, h.node?_root]
  · rw [attachments_addInside _ _ _ _ hbinds, h.attachments_root, if_neg (by omega)]
    rfl
  · intro i n' hi hn'
    rw [attachments_addInside _ _ _ _ hbinds]
    rw [node?_addInside] at hn'
    by_cases hio : i = g.order
    · rw [if_pos hio, Option.some.injEq] at hn'
      rw [hio, h.attachments_order, ← hn', hkind]
      simp
    · rw [if_neg hio] at hn' ⊢
      rw [List.append_nil]
      exact h.attachments_kind i n' hi hn'
  · intro e he hk
    rw [edges_addInside, List.mem_append, List.mem_singleton] at he
    rcases he with he | rfl
    · rw [spanOf_addInside_of_lt (hlt e he hk).1, spanOf_addInside_of_lt (hlt e he hk).2]
      exact h.span_ne_parent e he hk
    · rw [spanOf_addInside_order, spanOf_addInside_of_lt hp]
      exact ((hfits.fresh (hscope hk)).1).symm
  · intro e he e' he' hk hk' htarget hsource
    rw [edges_addInside, List.mem_append, List.mem_singleton] at he he'
    rcases he with he | rfl <;> rcases he' with he' | rfl
    · rw [spanOf_addInside_of_lt (hlt e he hk).1, spanOf_addInside_of_lt (hlt e' he' hk').1]
      exact h.siblings_ne e he e' he' hk hk' htarget hsource
    · rw [spanOf_addInside_of_lt (hlt e he hk).1, spanOf_addInside_order]
      exact (hfits.fresh (hscope hk')).2 e he hk htarget
    · rw [spanOf_addInside_of_lt (hlt e' he' hk').1, spanOf_addInside_order]
      exact ((hfits.fresh (hscope hk)).2 e' he' hk' htarget.symm).symm
    · exact absurd rfl hsource

theorem withReference (h : g.Structured top) (span : Span) (name : String)
    (symbol : Option SymbolIndex) : (g.withReference span name symbol).Structured top := by
  have hroot := h.root_lt
  have hlt : ∀ e ∈ g.edges, e.kind = .scopeToScope → e.source < g.order ∧ e.target < g.order :=
    fun e he hk => h.edge_lt he (by rw [hk]; rfl)
  refine ⟨?_, h.attachments_root, ?_, ?_, ?_, ?_⟩
  · rw [node?_withReference_of_lt hroot, h.node?_root]
  · intro i n hi hn
    rw [node?_withReference] at hn
    by_cases hio : i = g.order
    · rw [if_pos hio, Option.some.injEq] at hn
      subst hio hn
      exact congrArg (List.map Edge.kind) h.attachments_order
    · rw [if_neg hio] at hn
      exact h.attachments_kind i n hi hn
  · intro e he hbinds
    obtain ⟨hts, hso, s, hs, hcontains⟩ := h.attached e he hbinds
    refine ⟨hts, ?_, s, ?_, ?_⟩
    · simp only [Graph.withReference, order, List.length_append] at hso ⊢
      omega
    · rw [node?_withReference_of_lt (by omega), hs]
    · rwa [spanOf_withReference_of_lt hso]
  · intro e he hk
    rw [spanOf_withReference_of_lt (hlt e he hk).1, spanOf_withReference_of_lt (hlt e he hk).2]
    exact h.span_ne_parent e he hk
  · intro e he e' he' hk hk' htarget hsource
    rw [spanOf_withReference_of_lt (hlt e he hk).1, spanOf_withReference_of_lt (hlt e' he' hk').1]
    exact h.siblings_ne e he e' he' hk hk' htarget hsource

/-- Bindings are no part of the structure. -/
theorem addBindings (h : g.Structured top) {es : List Edge} (hes : ∀ e ∈ es, e.kind.binds = true) :
    ({ g with edges := g.edges ++ es } : Graph).Structured top := by
  -- an edge that is no binding is an old one
  have hold : ∀ e ∈ g.edges ++ es, e.kind.binds = false → e ∈ g.edges := by
    intro e he hbinds
    rcases List.mem_append.mp he with he | he
    · exact he
    · rw [hes e he] at hbinds; contradiction
  have hscope : ∀ e ∈ g.edges ++ es, e.kind = .scopeToScope → e ∈ g.edges := by
    intro e he hk
    exact hold e he (by rw [hk]; rfl)
  refine ⟨h.node?_root, ?_, ?_, ?_, ?_, ?_⟩
  · rw [attachments_append_bindings hes]
    exact h.attachments_root
  · intro i n hi hn
    rw [attachments_append_bindings hes]
    exact h.attachments_kind i n hi hn
  · intro e he hbinds
    exact h.attached e (hold e he hbinds) hbinds
  · intro e he hk
    exact h.span_ne_parent e (hscope e he hk) hk
  · intro e he e' he' hk hk'
    exact h.siblings_ne e (hscope e he hk) e' (hscope e' he' hk') hk hk'

/-! ### The one attachment of a node -/

/-- An edge that is no binding belongs to a node other than the root, and has the
kind of that node. -/
theorem source_of_edge (h : g.Structured top) {e : Edge} (he : e ∈ g.edges)
    (hbinds : e.kind.binds = false) :
    e.source ≠ root ∧ ∃ n, g.node? e.source = some n ∧ n.attachment = some e.kind := by
  have hmem : e ∈ g.attachments e.source := mem_attachments.mpr ⟨he, rfl, hbinds⟩
  have hne : e.source ≠ root := by
    intro hroot
    rw [hroot, h.attachments_root] at hmem
    exact List.not_mem_nil hmem
  have hlt := (h.attached e he hbinds).2.1
  have hn : g.node? e.source = some (g.nodes[e.source]) := List.getElem?_eq_getElem hlt
  refine ⟨hne, _, hn, ?_⟩
  have hkind : e.kind ∈ (g.attachments e.source).map Edge.kind := List.mem_map_of_mem hmem
  rw [h.attachments_kind _ _ hne hn, Option.mem_toList] at hkind
  exact hkind

/-- A node is attached by nothing but its one edge. -/
theorem attachments_of_edge (h : g.Structured top) {e : Edge} (he : e ∈ g.edges)
    (hbinds : e.kind.binds = false) : g.attachments e.source = [e] := by
  have hmem : e ∈ g.attachments e.source := mem_attachments.mpr ⟨he, rfl, hbinds⟩
  obtain ⟨hne, n, hn, hkind⟩ := h.source_of_edge he hbinds
  have hmap := h.attachments_kind _ n hne hn
  rw [hkind, Option.toList_some] at hmap
  have hlen : (g.attachments e.source).length = 1 := by
    simpa using congrArg List.length hmap
  obtain ⟨e', he'⟩ := List.length_eq_one_iff.mp hlen
  rw [he', List.mem_singleton] at hmem
  rw [he', hmem]

theorem eq_of_source_eq (h : g.Structured top) {e e' : Edge} (he : e ∈ g.edges)
    (he' : e' ∈ g.edges) (hbinds : e.kind.binds = false) (hbinds' : e'.kind.binds = false)
    (hsource : e.source = e'.source) : e = e' := by
  have h1 := h.attachments_of_edge he hbinds
  have h2 := h.attachments_of_edge he' hbinds'
  rw [hsource, h2, List.singleton_inj] at h1
  exact h1.symm

/-- Every node other than the root and the references has an edge of its kind. -/
theorem exists_edge (h : g.Structured top) {i : Nat} {n : Node} {kind : Relation} (hi : i ≠ root)
    (hn : g.node? i = some n) (hkind : n.attachment = some kind) :
    ∃ p, (⟨i, p, kind⟩ : Edge) ∈ g.edges := by
  have hmap := h.attachments_kind i n hi hn
  rw [hkind, Option.toList_some] at hmap
  obtain ⟨e, he, hek⟩ : ∃ e ∈ g.attachments i, e.kind = kind :=
    List.mem_map.mp (by rw [hmap]; exact List.mem_singleton.mpr rfl)
  obtain ⟨hmem, hsource, -⟩ := mem_attachments.mp he
  exact ⟨e.target, by rw [← hsource, ← hek]; exact hmem⟩

theorem outgoing_of_edge (h : g.Structured top) {e : Edge} (he : e ∈ g.edges)
    {p : Relation → Bool} (hp : ∀ kind, p kind = true → kind.binds = false)
    (hk : p e.kind = true) : g.outgoing e.source p = [e.target] := by
  rw [outgoing_eq_attachments g _ hp, h.attachments_of_edge he (hp _ hk)]
  simp [hk]

/-- A definition or import is attached to the scope it lives in. -/
theorem exists_declaring (h : g.Structured top) {i : Nat} {n : Node} (hn : g.node? i = some n)
    (hdecl : n.declaresName = true) :
    ∃ p kind, kind.declares = true ∧ (⟨i, p, kind⟩ : Edge) ∈ g.edges ∧
      g.homeScope i = .ok (some p) := by
  have hroot : i ≠ root := by
    rintro rfl
    rw [h.node?_root] at hn
    cases hn
    cases hdecl
  cases n with
  | definition =>
    obtain ⟨p, hedge⟩ := h.exists_edge hroot hn rfl
    have hout : g.outgoing i (· == .definitionToScope) = [p] :=
      h.outgoing_of_edge hedge (Relation.binds_of_beq rfl) rfl
    exact ⟨p, _, rfl, hedge, by simp [homeScope, hn, hout]⟩
  | imported =>
    obtain ⟨p, hedge⟩ := h.exists_edge hroot hn rfl
    have hout : g.outgoing i (· == .importToScope) = [p] :=
      h.outgoing_of_edge hedge (Relation.binds_of_beq rfl) rfl
    exact ⟨p, _, rfl, hedge, by simp [homeScope, hn, hout]⟩
  | scope | reference => cases hdecl

/-! ### Parents -/

theorem parent_root (h : g.Structured top) : g.parent root = .ok none := by
  have hout : g.outgoing root (· == .scopeToScope) = [] := by
    rw [outgoing_eq_attachments g _ (Relation.binds_of_beq rfl), h.attachments_root]
    rfl
  simp [parent, h.node?_root, hout]

theorem parent_of_edge (h : g.Structured top) {i p : Nat}
    (he : (⟨i, p, .scopeToScope⟩ : Edge) ∈ g.edges) : g.parent i = .ok (some p) := by
  obtain ⟨-, n, hn, hkind⟩ := h.source_of_edge he rfl
  obtain ⟨s, rfl⟩ := Node.attachment_eq_scopeToScope hkind
  obtain ⟨-, -, sp, hsp, -⟩ := h.attached _ he rfl
  have hout : g.outgoing i (· == .scopeToScope) = [p] :=
    h.outgoing_of_edge he (Relation.binds_of_beq rfl) rfl
  simp_all [parent, Node.isScope]

/-- The parent of a scope is where its edge leads. -/
theorem parent_eq_ok_iff (h : g.Structured top) {i p : Nat} :
    g.parent i = .ok (some p) ↔ (⟨i, p, .scopeToScope⟩ : Edge) ∈ g.edges := by
  refine ⟨fun hp => ?_, h.parent_of_edge⟩
  cases hn : g.node? i with
  | none => simp [parent, hn] at hp
  | some n =>
    cases n with
    | scope s =>
      by_cases hi : i = root
      · rw [hi, h.parent_root] at hp
        simp at hp
      · obtain ⟨q, hq⟩ := h.exists_edge hi hn rfl
        rw [h.parent_of_edge hq] at hp
        simp only [Except.ok.injEq, Option.some.injEq] at hp
        rwa [hp] at hq
    | definition | imported | reference => simp [parent, hn] at hp

/-- Every scope but the root has a parent. -/
theorem exists_parent (h : g.Structured top) {i : Nat} {s : Span} (hi : i ≠ root)
    (hn : g.node? i = some (.scope s)) : ∃ p, g.parent i = .ok (some p) := by
  obtain ⟨p, hp⟩ := h.exists_edge hi hn rfl
  exact ⟨p, h.parent_of_edge hp⟩

/-- A parent is an earlier scope that is the root or contains its child. -/
theorem of_parent (h : g.Structured top) {i p : Nat} (hp : g.parent i = .ok (some p)) :
    p < i ∧ ∃ s, g.node? p = some (.scope s) ∧ (p = root ∨ s.contains (g.spanOf i)) := by
  obtain ⟨hlt, -, hscope⟩ := h.attached _ (h.parent_eq_ok_iff.mp hp) rfl
  exact ⟨hlt, hscope⟩

end Structured
end Graph
end NameBinding
