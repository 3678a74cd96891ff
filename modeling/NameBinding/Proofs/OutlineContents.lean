import Mathlib.Data.List.Forall2
import Mathlib.Data.List.Nodup
import Mathlib.Logic.Relation
import Mathlib.Tactic.Choose
import NameBinding.Proofs.Ancestry
import NameBinding.Proofs.Outlines

/-!
# What an outline shows

An outline is made by a recursion from the root over the edges that lead into a scope.  That
every scope, declaration and bound reference of the graph is shown, and none of them twice,
rests on what leads out of a node: a scope has one parent, a declaration one home and a
reference at most one binding.  Parents come before their children, so the recursion ends.

A node of an outline is named by the path to it, not by what it shows, since different scopes
may look the same.

## Main definitions

* `ScopeOutline.at?` — the part of an outline at the end of a path.
* `Graph.Outlines` — the recursion that makes outlines, without a bound on its depth.
* `Graph.Lists` — entries for exactly some nodes, in the order of spans.
* `Graph.ShowsScope` — what is shown of a scope itself.
* `Graph.Arranges` — the scopes correspond to the nodes of an outline.
* `Graph.FaithfulOutline` — the outline shows everything once, where it belongs.

## Main results

* `Structured.outline_eq_mk` — the outline of a scope is made of those of its children.
* `Structured.inward_induction`, `Structured.outlines` — the recursion over the scopes ends.
* `Structured.arranges` — scopes and nodes of the outline correspond, and nest alike.
* `length_flatMap_incoming` — what leads to different nodes adds up.
* `outline_faithful` — **the outline of a resolved graph is faithful.**
-/

namespace NameBinding

/-! ### Parts of an outline -/

namespace ScopeOutline

def span : ScopeOutline → Span
  | .mk span _ _ _ => span

def definitions : ScopeOutline → List DefinitionOutline
  | .mk _ definitions _ _ => definitions

def imports : ScopeOutline → List ImportOutline
  | .mk _ _ imports _ => imports

def scopes : ScopeOutline → List ScopeOutline
  | .mk _ _ _ scopes => scopes

/-- The part at the end of a path.  Each number of the path chooses one of the inner scopes. -/
def at? : ScopeOutline → List Nat → Option ScopeOutline
  | o, [] => some o
  | o, k :: path => o.scopes[k]?.bind fun inner => inner.at? path

theorem at?_append (o : ScopeOutline) (path path' : List Nat) :
    o.at? (path ++ path') = (o.at? path).bind (·.at? path') := by
  induction path generalizing o with
  | nil => rfl
  | cons k path ih =>
    rw [List.cons_append, at?, at?, Option.bind_assoc]
    exact congrArg _ (funext ih)

theorem at?_singleton (o : ScopeOutline) (k : Nat) : o.at? [k] = o.scopes[k]? := by
  rw [at?]
  cases o.scopes[k]? <;> rfl

mutual

/-- All parts of an outline, each before those inside it. -/
def parts : ScopeOutline → List ScopeOutline
  | .mk span definitions imports scopes => .mk span definitions imports scopes :: partsOf scopes

def partsOf : List ScopeOutline → List ScopeOutline
  | [] => []
  | o :: os => parts o ++ partsOf os

end

theorem partsOf_eq_flatMap (os : List ScopeOutline) : partsOf os = os.flatMap parts := by
  induction os with
  | nil => rfl
  | cons o os ih => rw [partsOf, List.flatMap_cons, ih]

theorem parts_eq_cons (o : ScopeOutline) : o.parts = o :: o.scopes.flatMap parts := by
  cases o
  rw [parts, partsOf_eq_flatMap, scopes]

/-- The contexts of the references to what a scope declares. -/
def contexts (o : ScopeOutline) : List String :=
  o.definitions.flatMap (·.references) ++ o.imports.flatMap (·.references)

def scopeTotal (o : ScopeOutline) : Nat := o.parts.length

def definitionTotal (o : ScopeOutline) : Nat := (o.parts.flatMap definitions).length

def importTotal (o : ScopeOutline) : Nat := (o.parts.flatMap imports).length

def referenceTotal (o : ScopeOutline) : Nat := (o.parts.flatMap contexts).length

end ScopeOutline

namespace Graph

/-! ### Faithful outlines -/

/-- The outline of a scope is made of the outlines of the scopes in it, and so on, without a
bound on the depth. -/
inductive Outlines (g : Graph) (source : String) (symbols : SymbolTable) :
    Nat → ScopeOutline → Prop
  | intro {i : Nat} {scopes : List ScopeOutline}
      (h : List.Forall₂ (Outlines g source symbols) (g.scopesIn i) scopes) :
      Outlines g source symbols i
        (.mk (g.spanOf i) ((g.definitionsIn i).filterMap (g.definitionOutline? source symbols))
          ((g.importsIn i).filterMap (g.importOutline? source)) scopes)

/-- There is one entry for each node that satisfies `P`, and no other, in the order of spans;
`Shows` says what the entry of a node is. -/
def Lists {β : Type} (g : Graph) (P : Nat → Prop) (Shows : Nat → β → Prop) (entries : List β) :
    Prop :=
  ∃ is : List Nat, is.Nodup ∧ (∀ i, i ∈ is ↔ P i) ∧
    ((is.map g.spanOf).Pairwise fun s t => (compare s t).isLE = true) ∧
    List.Forall₂ Shows is entries

/-- The texts are the contexts of the references bound to `w`. -/
def ShowsUses (g : Graph) (source : String) (w : Nat) (contexts : List String) : Prop :=
  g.Lists (fun r => g.boundTo? r = some w)
    (fun r context => context = (g.spanOf r).context source) contexts

structure ShowsDefinition (g : Graph) (source : String) (symbols : SymbolTable) (w : Nat)
    (d : DefinitionOutline) : Prop where
  node : ∃ symbol, g.node? w = some (.definition d.span d.name symbol) ∧
    d.kind = symbols.labelFor symbol
  context : d.context = d.span.context source
  references : g.ShowsUses source w d.references

structure ShowsImport (g : Graph) (source : String) (w : Nat) (d : ImportOutline) : Prop where
  node : g.node? w = some (.imported d.span d.name)
  context : d.context = d.span.context source
  references : g.ShowsUses source w d.references

/-- What is shown of the scope `i`, apart from the scopes in it: its span and what it is the
home of.  The scopes in it come in the order of spans. -/
structure ShowsScope (g : Graph) (source : String) (symbols : SymbolTable) (i : Nat)
    (o : ScopeOutline) : Prop where
  node : g.node? i = some (.scope o.span)
  definitions : g.Lists
    (fun w => (∃ n, g.node? w = some n ∧ n.isDefinition = true) ∧ g.homeScope w = .ok (some i))
    (g.ShowsDefinition source symbols) o.definitions
  imports : g.Lists
    (fun w => (∃ n, g.node? w = some n ∧ n.isImport = true) ∧ g.homeScope w = .ok (some i))
    (g.ShowsImport source) o.imports
  ordered : (o.scopes.map ScopeOutline.span).Pairwise fun s t => (compare s t).isLE = true

/-- The scopes of the graph have different places in the outline and fill it.  A scope lies in
another one exactly if its place is directly inside the other's. -/
structure Arranges (g : Graph) (source : String) (symbols : SymbolTable) (o : ScopeOutline)
    (place : Nat → List Nat) : Prop where
  root : place root = []
  shown : ∀ i s, g.node? i = some (.scope s) →
    ∃ part, o.at? (place i) = some part ∧ g.ShowsScope source symbols i part
  injective : ∀ i j s t, g.node? i = some (.scope s) → g.node? j = some (.scope t) →
    place i = place j → i = j
  surjective : ∀ path, (o.at? path).isSome = true →
    ∃ i s, g.node? i = some (.scope s) ∧ place i = path
  nested : ∀ i p s t, g.node? i = some (.scope s) → g.node? p = some (.scope t) →
    (g.outerScope? i = some p ↔ ∃ k, place i = place p ++ [k])

/-- The recursion that makes the outline ends with it.  The outline has a place for each scope,
each declaration is shown at the place of its home, and each bound reference with what it is
bound to. -/
structure FaithfulOutline (g : Graph) (source : String) (symbols : SymbolTable)
    (o : ScopeOutline) : Prop where
  ends : g.Outlines source symbols root o
  places : ∃ place, g.Arranges source symbols o place
  /-- Every declaration has a home. -/
  homes : ∀ w n, g.node? w = some n → n.declaresName = true →
    ∃ i s, g.homeScope w = .ok (some i) ∧ g.node? i = some (.scope s)
  /-- Only references are bound, and only to declarations. -/
  bound : ∀ r w, g.boundTo? r = some w →
    (∃ n, g.node? r = some n ∧ n.isReference = true) ∧
      ∃ n, g.node? w = some n ∧ n.declaresName = true
  scopeTotal : o.scopeTotal = g.counts.scopes
  definitionTotal : o.definitionTotal = g.counts.definitions
  importTotal : o.importTotal = g.counts.imports
  referenceTotal : o.referenceTotal = g.counts.resolved

/-! ### One level -/

section Level

variable {top : Span} {g : Graph} (source : String) (symbols : SymbolTable)

/-- Children come after their parents, so two bounds that cover the nodes after `i` show the
same levels. -/
theorem Structured.outlineTo_congr (h : g.Structured top) : ∀ (n m i : Nat), i < g.order →
    g.order ≤ i + n → g.order ≤ i + m →
    g.outlineTo source symbols n i = g.outlineTo source symbols m i := by
  intro n
  induction n with
  | zero => intro m i hlt hn; omega
  | succ n ih =>
    intro m i hlt hn hm
    obtain ⟨m, rfl⟩ : ∃ k, m = k + 1 := ⟨m - 1, by omega⟩
    have hscopes : (g.scopesIn i).map (g.outlineTo source symbols n) =
        (g.scopesIn i).map (g.outlineTo source symbols m) := by
      apply List.map_congr_left
      intro c hc
      have hlt' := h.isChild_lt (mem_scopesIn.mp hc)
      exact ih m c hlt'.2 (by omega) (by omega)
    rw [outlineTo, outlineTo, hscopes]

/-- **The outline of a scope is made of those of its children.** -/
theorem Structured.outline_eq_mk (h : g.Structured top) (i : Nat) :
    g.outline source symbols i = .mk (g.spanOf i)
      ((g.definitionsIn i).filterMap (g.definitionOutline? source symbols))
      ((g.importsIn i).filterMap (g.importOutline? source))
      ((g.scopesIn i).map (g.outline source symbols)) := by
  have hscopes : (g.scopesIn i).map (g.outlineTo source symbols g.order) =
      (g.scopesIn i).map (g.outline source symbols) := by
    apply List.map_congr_left
    intro c hc
    have hlt := h.isChild_lt (mem_scopesIn.mp hc)
    exact h.outlineTo_congr source symbols _ _ c hlt.2 (by omega) (by omega)
  rw [outline, outlineTo, hscopes]

theorem Structured.scopes_outline (h : g.Structured top) (i : Nat) :
    (g.outline source symbols i).scopes = (g.scopesIn i).map (g.outline source symbols) := by
  rw [h.outline_eq_mk source symbols i, ScopeOutline.scopes]

theorem span_outline (g : Graph) (i : Nat) : (g.outline source symbols i).span = g.spanOf i := rfl

/-- What holds of a scope if it holds of the scopes in it holds of all: fewer nodes come after
a child than after its parent. -/
theorem Structured.inward_induction (h : g.Structured top) {P : Nat → Prop}
    (hstep : ∀ i, (∀ c ∈ g.scopesIn i, P c) → P i) (i : Nat) : P i := by
  induction hn : g.order - i using Nat.strongRecOn generalizing i with
  | _ n ih =>
    apply hstep
    intro c hc
    have hlt := h.isChild_lt (mem_scopesIn.mp hc)
    exact ih (g.order - c) (by omega) c rfl

/-- **The recursion that makes an outline ends.** -/
theorem Structured.outlines (h : g.Structured top) (i : Nat) :
    g.Outlines source symbols i (g.outline source symbols i) := by
  induction i using h.inward_induction with
  | hstep i ih =>
    rw [h.outline_eq_mk source symbols i]
    refine .intro ?_
    rw [List.forall₂_map_right_iff, List.forall₂_same]
    exact ih

theorem forall₂_filterMap {α β : Type} {f : α → Option β} {R : α → β → Prop} {as : List α}
    (h : ∀ a ∈ as, ∃ b, f a = some b ∧ R a b) : List.Forall₂ R as (as.filterMap f) := by
  induction as with
  | nil => exact .nil
  | cons a as ih =>
    obtain ⟨b, hb, hab⟩ := h a (List.mem_cons_self ..)
    rw [List.filterMap_cons_some hb]
    exact .cons hab (ih fun c hc => h c (List.mem_cons_of_mem _ hc))

/-- Sorted nodes are listed as they are, if there is an entry for each. -/
theorem lists_sortBySpan {β : Type} {is : List Nat} (hnodup : is.Nodup) {P : Nat → Prop}
    (hP : ∀ i, i ∈ is ↔ P i) {f : Nat → Option β} {Shows : Nat → β → Prop}
    (hshows : ∀ i, P i → ∃ e, f i = some e ∧ Shows i e) :
    g.Lists P Shows ((g.sortBySpan is).filterMap f) := by
  have hmem : ∀ i, i ∈ g.sortBySpan is ↔ P i := fun i => List.mem_mergeSort.trans (hP i)
  refine ⟨g.sortBySpan is, (List.mergeSort_perm is g.precedes).nodup_iff.mpr hnodup, hmem,
    g.pairwise_sortBySpan is, forall₂_filterMap fun i hi => ?_⟩
  exact hshows i ((hmem i).mp hi)

theorem BindsNames.lt_of_mem_incoming (h : g.BindsNames) (w : Nat) :
    ∀ i ∈ g.incoming w Relation.binds, i < g.order := by
  intro i hi
  obtain ⟨e, he, rfl, -, hbinds⟩ := mem_incoming.mp hi
  obtain ⟨⟨n, hn, -⟩, -⟩ := h e he hbinds
  exact node?_lt hn

/-- The contexts of what is bound to a node. -/
theorem SingleBindings.showsUses (h : g.SingleBindings) (hnames : g.BindsNames) (w : Nat) :
    g.ShowsUses source w (g.usageContexts source w) := by
  rw [usageContexts, List.map_filterMap]
  apply lists_sortBySpan (h.nodup_incoming w) fun r => h.mem_incoming_iff
  intro r hr
  obtain ⟨e, he, rfl, -, hbinds⟩ := h.exists_edge hr
  obtain ⟨⟨n, hn, -⟩, -⟩ := hnames e he hbinds
  exact ⟨_, by rw [hn]; rfl, by rw [spanOf_eq hn]⟩

/-- What is attached to a scope by a declaring edge has its home there. -/
theorem Structured.mem_incoming_iff_home (h : g.Structured top) {kind : Relation}
    (hkind : kind.declares = true) {w i : Nat} :
    w ∈ g.incoming i (· == kind) ↔
      (∃ n, g.node? w = some n ∧ n.attachment = some kind) ∧ g.homeScope w = .ok (some i) := by
  rw [mem_incoming_beq]
  constructor
  · intro he
    have hbinds := Relation.binds_of_declares _ hkind
    obtain ⟨-, n, hn, hattach⟩ := h.source_of_edge he hbinds
    obtain ⟨p, kind', hkind', he', hhome⟩ :=
      h.exists_declaring hn (declaresName_of_attachment hattach hkind)
    have heq := h.eq_of_source_eq he he' hbinds (Relation.binds_of_declares _ hkind') rfl
    cases heq
    exact ⟨⟨n, hn, hattach⟩, hhome⟩
  · rintro ⟨⟨n, hn, hattach⟩, hhome⟩
    obtain ⟨p, kind', hkind', he, hhome'⟩ :=
      h.exists_declaring hn (declaresName_of_attachment hattach hkind)
    obtain ⟨-, n', hn', hattach'⟩ := h.source_of_edge he (Relation.binds_of_declares _ hkind')
    rw [hhome] at hhome'
    cases hhome'
    cases hn.symm.trans hn'
    cases hattach.symm.trans hattach'
    exact he

theorem definitionOutline?_eq {w : Nat} {span : Span} {name : String}
    {symbol : Option SymbolIndex} (hw : g.node? w = some (.definition span name symbol)) :
    g.definitionOutline? source symbols w = some ⟨name, symbols.labelFor symbol,
      span.context source, span, g.usageContexts source w⟩ := by
  rw [definitionOutline?, hw]

theorem importOutline?_eq {w : Nat} {span : Span} {name : String}
    (hw : g.node? w = some (.imported span name)) :
    g.importOutline? source w =
      some ⟨name, span.context source, span, g.usageContexts source w⟩ := by
  rw [importOutline?, hw]

theorem attachment_eq_definitionToScope {n : Node} :
    n.attachment = some .definitionToScope ↔ n.isDefinition = true := by
  cases n <;> simp [Node.attachment, Node.isDefinition]

theorem attachment_eq_importToScope {n : Node} :
    n.attachment = some .importToScope ↔ n.isImport = true := by
  cases n <;> simp [Node.attachment, Node.isImport]

theorem exists_scope_iff {i : Nat} :
    (∃ s, g.node? i = some (.scope s)) ↔ ∃ n, g.node? i = some n ∧ n.isScope = true := by
  constructor
  · rintro ⟨s, hs⟩
    exact ⟨_, hs, rfl⟩
  · rintro ⟨n, hn, hscope⟩
    cases n with
    | scope s => exact ⟨s, hn⟩
    | definition | imported | reference => cases hscope

/-- **What the outline of a scope shows of the scope itself.** -/
theorem Structured.showsScope (h : g.Structured top) (hsingle : g.SingleBindings)
    (hnames : g.BindsNames) {i : Nat} {s : Span} (hi : g.node? i = some (.scope s)) :
    g.ShowsScope source symbols i (g.outline source symbols i) where
  node := by
    rw [span_outline, spanOf_eq hi]
    exact hi
  definitions := by
    rw [h.outline_eq_mk source symbols i]
    apply lists_sortBySpan (h.nodup_incoming i rfl)
    · intro w
      rw [h.mem_incoming_iff_home rfl]
      simp only [attachment_eq_definitionToScope]
    · rintro w ⟨⟨n, hn, hdef⟩, -⟩
      cases n with
      | definition span name symbol =>
        refine ⟨_, definitionOutline?_eq source symbols hn, ⟨symbol, hn, rfl⟩, rfl, ?_⟩
        exact hsingle.showsUses source hnames w
      | scope | imported | reference => cases hdef
  imports := by
    rw [h.outline_eq_mk source symbols i]
    apply lists_sortBySpan (h.nodup_incoming i rfl)
    · intro w
      rw [h.mem_incoming_iff_home rfl]
      simp only [attachment_eq_importToScope]
    · rintro w ⟨⟨n, hn, himp⟩, -⟩
      cases n with
      | imported span name =>
        refine ⟨_, importOutline?_eq source hn, hn, rfl, ?_⟩
        exact hsingle.showsUses source hnames w
      | scope | definition | reference => cases himp
  ordered := by
    have hspans : ((g.scopesIn i).map (g.outline source symbols)).map ScopeOutline.span =
        (g.scopesIn i).map g.spanOf := List.map_map
    rw [h.scopes_outline, hspans]
    exact g.pairwise_sortBySpan _

end Level

/-! ### Places -/

/-- The path leads from the root to the scope: each number chooses one of the scopes directly
inside the one before. -/
inductive ShownAt (g : Graph) : Nat → List Nat → Prop
  | root : ShownAt g root []
  | inner {p k i : Nat} {path : List Nat} (hp : ShownAt g p path)
      (hi : (g.scopesIn p)[k]? = some i) : ShownAt g i (path ++ [k])

namespace ShownAt

variable {g : Graph} {i k : Nat} {path : List Nat}

theorem of_nil (h : g.ShownAt i []) : i = Graph.root := by
  generalize hpath : ([] : List Nat) = path at h
  cases h with
  | root => rfl
  | inner => simp at hpath

theorem of_append (h : g.ShownAt i (path ++ [k])) :
    ∃ p, g.ShownAt p path ∧ (g.scopesIn p)[k]? = some i := by
  generalize hpath : path ++ [k] = path' at h
  cases h with
  | root => simp at hpath
  | inner hp hi =>
    obtain ⟨rfl, hk⟩ := List.append_inj' hpath rfl
    cases hk
    exact ⟨_, hp, hi⟩

/-- A path leads to one scope only. -/
theorem unique (hi : g.ShownAt i path) : ∀ {j : Nat}, g.ShownAt j path → i = j := by
  induction hi with
  | root =>
    intro j hj
    exact hj.of_nil.symm
  | inner _ hi ih =>
    intro j hj
    obtain ⟨q, hq, hj⟩ := hj.of_append
    obtain rfl := ih hq
    exact Option.some.inj (hi.symm.trans hj)

end ShownAt

namespace Structured

variable {top : Span} {g : Graph}

theorem isChild_unique (h : g.Structured top) {p q c : Nat} (hp : g.IsChild p c)
    (hq : g.IsChild q c) : p = q := by
  have heq := h.eq_of_source_eq hp hq rfl rfl rfl
  cases heq
  rfl

theorem outerScope?_eq_some_iff (h : g.Structured top) {i p : Nat} :
    g.outerScope? i = some p ↔ g.IsChild p i := by
  constructor
  · intro hp
    apply h.parent_eq_ok_iff.mp
    unfold outerScope? at hp
    split at hp
    · next hparent => rw [hparent, hp]
    · cases hp
  · intro hc
    exact outerScope?_of_parent (h.parent_of_edge hc)

theorem nodup_scopesIn (h : g.Structured top) (i : Nat) : (g.scopesIn i).Nodup :=
  (List.mergeSort_perm _ _).nodup_iff.mpr (h.nodup_incoming i rfl)

theorem isChild_of_getElem? {i k c : Nat} (hc : (g.scopesIn i)[k]? = some c) : g.IsChild i c :=
  mem_scopesIn.mp (List.mem_of_getElem? hc)

/-- **Every scope is shown**, and at one place only. -/
theorem exists_shownAt (h : g.Structured top) (i : Nat)
    (hi : ∃ s, g.node? i = some (.scope s)) : ∃ path, g.ShownAt i path := by
  obtain ⟨chain, hout⟩ := h.exists_outward i hi
  clear hi
  induction hout with
  | root => exact ⟨[], .root⟩
  | step hparent _ ih =>
    obtain ⟨path, hpath⟩ := ih
    have hchild := mem_scopesIn.mpr (h.parent_eq_ok_iff.mp hparent)
    obtain ⟨k, hk⟩ := List.mem_iff_getElem?.mp hchild
    exact ⟨path ++ [k], .inner hpath hk⟩

theorem path_unique (h : g.Structured top) {i : Nat} {a : List Nat} (ha : g.ShownAt i a) :
    ∀ {b : List Nat}, g.ShownAt i b → a = b := by
  induction ha with
  | root =>
    intro b hb
    cases hb with
    | root => rfl
    | inner _ hi => exact absurd rfl (h.isChild_scope (isChild_of_getElem? hi)).1
  | @inner p k i path _ hi ih =>
    intro b hb
    have hchild := isChild_of_getElem? hi
    cases hb with
    | root => exact absurd rfl (h.isChild_scope hchild).1
    | @inner q l _ path' hq hj =>
      obtain rfl := h.isChild_unique hchild (isChild_of_getElem? hj)
      obtain rfl := ih hq
      -- no scope comes twice among the children
      obtain ⟨hlt, -⟩ := List.getElem?_eq_some_iff.mp hi
      rw [(List.getElem?_inj hlt (h.nodup_scopesIn p)).mp (hi.trans hj.symm)]

theorem scope_of_shownAt (h : g.Structured top) {i : Nat} {path : List Nat}
    (hi : g.ShownAt i path) : ∃ s, g.node? i = some (.scope s) := by
  cases hi with
  | root => exact ⟨top, h.node?_root⟩
  | inner _ hi => exact (h.isChild_scope (isChild_of_getElem? hi)).2

variable (source : String) (symbols : SymbolTable)

theorem at?_outline (h : g.Structured top) {i : Nat} {path : List Nat} (hi : g.ShownAt i path) :
    (g.outline source symbols root).at? path = some (g.outline source symbols i) := by
  induction hi with
  | root => rfl
  | inner _ hi ih =>
    rw [ScopeOutline.at?_append, ih, Option.bind_some, ScopeOutline.at?_singleton,
      h.scopes_outline, List.getElem?_map, hi]
    rfl

/-- **Nothing is shown but scopes of the graph.** -/
theorem exists_of_at?_outline (h : g.Structured top) (path : List Nat)
    (hpath : ((g.outline source symbols root).at? path).isSome = true) :
    ∃ i, g.ShownAt i path := by
  induction path using List.reverseRecOn with
  | nil => exact ⟨root, .root⟩
  | append_singleton path k ih =>
    rw [ScopeOutline.at?_append] at hpath
    obtain ⟨i, hi⟩ := ih (Option.isSome_of_isSome_bind hpath)
    rw [h.at?_outline source symbols hi, Option.bind_some, ScopeOutline.at?_singleton,
      h.scopes_outline, List.getElem?_map, Option.isSome_map] at hpath
    obtain ⟨c, hc⟩ := Option.isSome_iff_exists.mp hpath
    exact ⟨c, .inner hi hc⟩

/-- **The scopes correspond to the nodes of the outline.** -/
theorem arranges (h : g.Structured top) (hsingle : g.SingleBindings) (hnames : g.BindsNames) :
    ∃ place, g.Arranges source symbols (g.outline source symbols root) place := by
  choose! place hplace using h.exists_shownAt
  refine ⟨place, ?_, ?_, ?_, ?_, ?_⟩
  · exact h.path_unique (hplace root ⟨top, h.node?_root⟩) .root
  · intro i s hi
    exact ⟨_, h.at?_outline source symbols (hplace i ⟨s, hi⟩),
      h.showsScope source symbols hsingle hnames hi⟩
  · intro i j s t hi hj heq
    have hshown := hplace j ⟨t, hj⟩
    rw [← heq] at hshown
    exact (hplace i ⟨s, hi⟩).unique hshown
  · intro path hpath
    obtain ⟨i, hi⟩ := h.exists_of_at?_outline source symbols path hpath
    obtain ⟨s, hs⟩ := h.scope_of_shownAt hi
    exact ⟨i, s, hs, h.path_unique (hplace i ⟨s, hs⟩) hi⟩
  · intro i p s t hi hp
    rw [h.outerScope?_eq_some_iff]
    constructor
    · intro hchild
      obtain ⟨k, hk⟩ := List.mem_iff_getElem?.mp (mem_scopesIn.mpr hchild)
      exact ⟨k, h.path_unique (hplace i ⟨s, hi⟩) (.inner (hplace p ⟨t, hp⟩) hk)⟩
    · rintro ⟨k, hk⟩
      have hshown := hplace i ⟨s, hi⟩
      rw [hk] at hshown
      obtain ⟨q, hq, hi'⟩ := hshown.of_append
      obtain rfl := hq.unique (hplace p ⟨t, hp⟩)
      exact isChild_of_getElem? hi'

end Structured

/-! ### Totals -/

/-- **What leads to different nodes adds up** to all edges that lead to one of them. -/
theorem length_flatMap_incoming (g : Graph) (p : Relation → Bool) : ∀ {ts : List Nat},
    ts.Nodup → (∀ e ∈ g.edges, p e.kind = true → e.target ∈ ts) →
    (ts.flatMap fun t => g.incoming t p).length = g.edges.countP fun e => p e.kind := by
  -- of the edges, those that lead to nodes listed so far
  have hpart : ∀ {ts : List Nat}, ts.Nodup → (ts.flatMap fun t => g.incoming t p).length =
      g.edges.countP fun e => p e.kind && decide (e.target ∈ ts) := by
    intro ts hts
    induction ts with
    | nil => simp
    | cons t ts ih =>
      rw [List.nodup_cons] at hts
      have hsplit := List.countP_eq_countP_filter_add g.edges
        (fun e => p e.kind && decide (e.target ∈ t :: ts)) (fun e => e.target == t)
      rw [List.countP_filter, List.countP_filter] at hsplit
      rw [List.flatMap_cons, List.length_append, ih hts.2, hsplit, incoming, List.length_map,
        ← List.countP_eq_length_filter]
      congr 1
      · refine List.countP_congr fun e _ => ?_
        by_cases ht : e.target = t <;> simp [ht]
      · refine List.countP_congr fun e _ => ?_
        by_cases ht : e.target = t
        · simp [ht, hts.1]
        · simp [ht]
  intro ts hts hall
  rw [hpart hts]
  refine List.countP_congr fun e he => ?_
  rw [Bool.and_eq_true, decide_eq_true_iff]
  exact ⟨And.left, fun hp => ⟨hp, hall e he hp⟩⟩

theorem length_flatMap_congr {α β γ : Type} {f : α → List β} {f' : α → List γ} {as : List α}
    (h : ∀ a ∈ as, (f a).length = (f' a).length) :
    (as.flatMap f).length = (as.flatMap f').length := by
  induction as with
  | nil => rfl
  | cons a as ih =>
    rw [List.flatMap_cons, List.flatMap_cons, List.length_append, List.length_append,
      h a (List.mem_cons_self ..), ih fun b hb => h b (List.mem_cons_of_mem _ hb)]

theorem length_positions (g : Graph) (p : Node → Bool) :
    (g.positions p).length = g.nodes.countP p := by
  have hlt : ∀ i ∈ g.positions p, i < g.order := by
    intro i hi
    obtain ⟨n, hn, -⟩ := mem_positions.mp hi
    exact node?_lt hn
  have hspans := congrArg List.length (filterMap_node? hlt)
  rw [List.length_map, List.length_map, filterMap_positions] at hspans
  rw [← hspans, List.countP_eq_length_filter]

theorem flatMap_eq_of_forall₂ {α β γ : Type} {f : α → List γ} {f' : β → List γ} {as : List α}
    {bs : List β} (h : List.Forall₂ (fun a b => f' b = f a) as bs) :
    bs.flatMap f' = as.flatMap f := by
  induction h with
  | nil => rfl
  | cons hab _ ih => rw [List.flatMap_cons, List.flatMap_cons, hab, ih]

namespace Structured

variable {top : Span} {g : Graph}

/-- The edges of a kind attach the nodes that ask for it, but for the root. -/
theorem perm_attached (h : g.Structured top) {kind : Relation} (hbinds : kind.binds = false)
    {p : Node → Bool} (hp : ∀ {n : Node}, n.attachment = some kind ↔ p n = true) :
    ((g.edges.filter fun e => e.kind == kind).map Edge.source).Perm
      ((g.positions p).filter (· != root)) := by
  rw [List.perm_ext_iff_of_nodup (h.nodup_sources fun e => Relation.binds_of_beq hbinds e.kind)
    ((g.nodup_positions p).filter _)]
  intro i
  rw [List.mem_filter, mem_positions, List.mem_map, bne_iff_ne]
  constructor
  · rintro ⟨e, he, rfl⟩
    obtain ⟨he, hk⟩ := List.mem_filter.mp he
    obtain ⟨hne, n, hn, hattach⟩ := h.source_of_edge he (Relation.binds_of_beq hbinds _ hk)
    rw [beq_iff_eq.mp hk] at hattach
    exact ⟨⟨n, hn, hp.mp hattach⟩, hne⟩
  · rintro ⟨⟨n, hn, hpn⟩, hne⟩
    obtain ⟨q, hq⟩ := h.exists_edge hne hn (hp.mpr hpn)
    exact ⟨_, List.mem_filter.mpr ⟨hq, beq_self_eq_true kind⟩, rfl⟩

/-- There are as many edges of a declaring kind as nodes that it attaches. -/
theorem countP_edges (h : g.Structured top) {kind : Relation} (hkind : kind.declares = true)
    {p : Node → Bool} (hp : ∀ {n : Node}, n.attachment = some kind ↔ p n = true) :
    (g.edges.countP fun e => e.kind == kind) = g.nodes.countP p := by
  have hperm := h.perm_attached (Relation.binds_of_declares _ hkind) hp
  -- the root is no declaration
  have hroot : (g.positions p).filter (· != root) = g.positions p := by
    rw [List.filter_eq_self]
    intro i hi
    obtain ⟨n, hn, hpn⟩ := mem_positions.mp hi
    rw [bne_iff_ne]
    rintro rfl
    rw [h.node?_root] at hn
    cases hn
    cases hp.mpr hpn
    cases hkind
  rw [← length_positions, ← hroot, ← hperm.length_eq, List.length_map,
    List.countP_eq_length_filter]

/-! ### The scopes inside a scope -/

theorem le_of_inside (h : g.Structured top) {i j : Nat}
    (hij : Relation.ReflTransGen g.IsChild i j) : i ≤ j := by
  induction hij with
  | refl => exact Nat.le_refl i
  | tail _ hc ih =>
    have hlt := h.isChild_lt hc
    omega

/-- What lies in two scopes directly inside one scope lies in one of them only. -/
theorem inside_unique (h : g.Structured top) {i c d j : Nat} (hc : g.IsChild i c)
    (hd : g.IsChild i d) (hcj : Relation.ReflTransGen g.IsChild c j)
    (hdj : Relation.ReflTransGen g.IsChild d j) : c = d := by
  -- a scope around `d` is `d` itself or around its parent
  have hcases : ∀ {c d}, g.IsChild i c → g.IsChild i d →
      Relation.ReflTransGen g.IsChild c d → c = d := by
    intro c d hc hd hcd
    rcases Relation.ReflTransGen.cases_tail hcd with rfl | ⟨p, hcp, hpd⟩
    · rfl
    · rw [h.isChild_unique hpd hd] at hcp
      have hle := h.le_of_inside hcp
      have hlt := h.isChild_lt hc
      omega
  induction hcj with
  | refl => exact (hcases hd hc hdj).symm
  | @tail p j hcp hpj ih =>
    rcases Relation.ReflTransGen.cases_tail hdj with rfl | ⟨q, hdq, hqj⟩
    · exact hcases hc hd (hcp.tail hpj)
    · rw [h.isChild_unique hqj hpj] at hdq
      exact ih hdq

/-- Every scope lies in the root. -/
theorem inside_root (h : g.Structured top) {i : Nat} :
    Relation.ReflTransGen g.IsChild root i ↔ ∃ s, g.node? i = some (.scope s) := by
  constructor
  · intro hi
    rcases Relation.ReflTransGen.cases_tail hi with rfl | ⟨p, -, hc⟩
    · exact ⟨top, h.node?_root⟩
    · exact (h.isChild_scope hc).2
  · intro hs
    obtain ⟨chain, hout⟩ := h.exists_outward i hs
    clear hs
    induction hout with
    | root => exact .refl
    | step hparent _ ih => exact ih.tail (h.parent_eq_ok_iff.mp hparent)

variable (source : String) (symbols : SymbolTable)

/-- **The parts of an outline are the outlines of the scopes inside**, each of them once. -/
theorem exists_parts (h : g.Structured top) (i : Nat) :
    ∃ is : List Nat, (g.outline source symbols i).parts = is.map (g.outline source symbols) ∧
      is.Nodup ∧ ∀ j, j ∈ is ↔ Relation.ReflTransGen g.IsChild i j := by
  induction i using h.inward_induction with
  | hstep i ih =>
    choose! below hparts hnodup hmem using ih
    refine ⟨i :: (g.scopesIn i).flatMap below, ?_, ?_, ?_⟩
    · rw [ScopeOutline.parts_eq_cons, h.scopes_outline, List.map_cons, List.flatMap_map,
        List.map_flatMap]
      exact congrArg _ (List.flatMap_congr hparts)
    · rw [List.nodup_cons, List.nodup_flatMap]
      refine ⟨fun hi => ?_, hnodup, ?_⟩
      · obtain ⟨c, hc, hi⟩ := List.mem_flatMap.mp hi
        have hle := h.le_of_inside ((hmem c hc i).mp hi)
        have hlt := h.isChild_lt (mem_scopesIn.mp hc)
        omega
      · refine (h.nodup_scopesIn i).imp_of_mem fun {c d} hc hd hne => ?_
        intro j hjc hjd
        exact hne (h.inside_unique (mem_scopesIn.mp hc) (mem_scopesIn.mp hd)
          ((hmem c hc j).mp hjc) ((hmem d hd j).mp hjd))
    · intro j
      rw [List.mem_cons, List.mem_flatMap, Relation.ReflTransGen.cases_head_iff]
      refine or_congr eq_comm ⟨?_, ?_⟩
      · rintro ⟨c, hc, hj⟩
        exact ⟨c, mem_scopesIn.mp hc, (hmem c hc j).mp hj⟩
      · rintro ⟨c, hc, hj⟩
        have hc' := mem_scopesIn.mpr hc
        exact ⟨c, hc', (hmem c hc' j).mpr hj⟩

/-! ### The declarations of a scope -/

theorem forall₂_definitions (h : g.Structured top) (i : Nat) :
    List.Forall₂ (fun w d => d.references = g.usageContexts source w) (g.definitionsIn i)
      (g.outline source symbols i).definitions := by
  rw [h.outline_eq_mk source symbols i]
  apply forall₂_filterMap
  intro w hw
  obtain ⟨-, n, hn, hattach⟩ := h.source_of_edge (mem_definitionsIn.mp hw) rfl
  cases n with
  | definition span name symbol => exact ⟨_, definitionOutline?_eq source symbols hn, rfl⟩
  | scope | imported | reference => cases hattach

theorem forall₂_imports (h : g.Structured top) (i : Nat) :
    List.Forall₂ (fun w d => d.references = g.usageContexts source w) (g.importsIn i)
      (g.outline source symbols i).imports := by
  rw [h.outline_eq_mk source symbols i]
  apply forall₂_filterMap
  intro w hw
  obtain ⟨-, n, hn, hattach⟩ := h.source_of_edge (mem_importsIn.mp hw) rfl
  cases n with
  | imported span name => exact ⟨_, importOutline?_eq source hn, rfl⟩
  | scope | definition | reference => cases hattach

theorem contexts_outline (h : g.Structured top) (i : Nat) :
    (g.outline source symbols i).contexts =
      (g.definitionsIn i ++ g.importsIn i).flatMap (g.usageContexts source) := by
  rw [ScopeOutline.contexts, flatMap_eq_of_forall₂ (h.forall₂_definitions source symbols i),
    flatMap_eq_of_forall₂ (h.forall₂_imports source symbols i), List.flatMap_append]

theorem homeScope_of_mem (h : g.Structured top) {w i : Nat}
    (hw : w ∈ g.definitionsIn i ++ g.importsIn i) : g.homeScope w = .ok (some i) := by
  rcases List.mem_append.mp hw with hw | hw
  · exact ((h.mem_incoming_iff_home rfl).mp (List.mem_mergeSort.mp hw)).2
  · exact ((h.mem_incoming_iff_home rfl).mp (List.mem_mergeSort.mp hw)).2

/-- Nothing is declared twice in one scope. -/
theorem nodup_declared (h : g.Structured top) (i : Nat) :
    (g.definitionsIn i ++ g.importsIn i).Nodup := by
  rw [List.nodup_append']
  refine ⟨(List.mergeSort_perm _ _).nodup_iff.mpr (h.nodup_incoming i rfl),
    (List.mergeSort_perm _ _).nodup_iff.mpr (h.nodup_incoming i rfl), ?_⟩
  intro w hdef himp
  have heq := h.eq_of_source_eq (mem_definitionsIn.mp hdef) (mem_importsIn.mp himp) rfl rfl rfl
  cases heq

section Totals

variable {is : List Nat}

/-- The entries for what the scopes declare add up to all declarations. -/
theorem length_flatMap_declared (h : g.Structured top) {kind : Relation}
    (hkind : kind.declares = true) {p : Node → Bool}
    (hp : ∀ {n : Node}, n.attachment = some kind ↔ p n = true) (hnodup : is.Nodup)
    (hscopes : ∀ i, i ∈ is ↔ ∃ s, g.node? i = some (.scope s)) {β : Type} {entries : Nat → List β}
    (hlength : ∀ i ∈ is, (entries i).length = (g.incoming i (· == kind)).length) :
    (is.flatMap entries).length = g.nodes.countP p := by
  rw [length_flatMap_congr hlength, g.length_flatMap_incoming (· == kind) hnodup ?_,
    h.countP_edges hkind hp]
  intro e he hk
  have hbinds := Relation.binds_of_declares _ hkind
  obtain ⟨-, -, s, hs, -⟩ := h.attached e he (Relation.binds_of_beq hbinds _ hk)
  exact (hscopes e.target).mpr ⟨s, hs⟩

/-- The declarations of all scopes are different ones, and all that are bound are among them. -/
theorem declared_all (h : g.Structured top) (hnames : g.BindsNames) (hnodup : is.Nodup)
    (hscopes : ∀ i, i ∈ is ↔ ∃ s, g.node? i = some (.scope s)) :
    (is.flatMap fun i => g.definitionsIn i ++ g.importsIn i).Nodup ∧
      ∀ e ∈ g.edges, e.kind.binds = true →
        e.target ∈ is.flatMap fun i => g.definitionsIn i ++ g.importsIn i := by
  rw [List.nodup_flatMap]
  refine ⟨⟨fun i _ => h.nodup_declared i, hnodup.imp fun {i j} hne => ?_⟩, ?_⟩
  · intro w hi hj
    have hhome := h.homeScope_of_mem hi
    rw [h.homeScope_of_mem hj] at hhome
    cases hhome
    exact hne rfl
  · intro e he hbinds
    obtain ⟨-, n, hn, hdecl⟩ := hnames e he hbinds
    obtain ⟨p, kind, hkind, hedge, -⟩ := h.exists_declaring hn hdecl
    obtain ⟨-, -, s, hs, -⟩ := h.attached _ hedge (Relation.binds_of_declares _ hkind)
    refine List.mem_flatMap.mpr ⟨p, (hscopes p).mpr ⟨s, hs⟩, List.mem_append.mpr ?_⟩
    have hp : e.target ∈ g.bindingsIn p :=
      List.mem_mergeSort.mpr (mem_incoming.mpr ⟨_, hedge, rfl, rfl, hkind⟩)
    exact (mem_bindingsIn.mp hp).imp mem_definitionsIn.mpr mem_importsIn.mpr

/-- The contexts of references add up to all bindings. -/
theorem length_flatMap_contexts (h : g.Structured top) (hnames : g.BindsNames)
    (hnodup : is.Nodup) (hscopes : ∀ i, i ∈ is ↔ ∃ s, g.node? i = some (.scope s)) :
    (is.flatMap fun i => (g.outline source symbols i).contexts).length =
      g.edges.countP fun e => e.kind.binds := by
  have hlength : ∀ i ∈ is, (g.outline source symbols i).contexts.length =
      ((g.definitionsIn i ++ g.importsIn i).flatMap fun w =>
        g.incoming w Relation.binds).length := by
    intro i _
    rw [h.contexts_outline]
    apply length_flatMap_congr
    intro w _
    rw [usageContexts_eq_map source (hnames.lt_of_mem_incoming w), List.length_map, usesOf,
      sortBySpan, List.length_mergeSort]
  obtain ⟨hdifferent, hall⟩ := h.declared_all hnames hnodup hscopes
  rw [length_flatMap_congr hlength, ← List.flatMap_assoc]
  exact g.length_flatMap_incoming Relation.binds hdifferent hall

end Totals

/-- **Outlines are faithful**, if nothing is bound twice and only references are bound, to
declarations. -/
theorem faithfulOutline (h : g.Structured top) (hsingle : g.SingleBindings)
    (hnames : g.BindsNames) :
    g.FaithfulOutline source symbols (g.outline source symbols root) := by
  obtain ⟨is, hparts, hnodup, hmem⟩ := h.exists_parts source symbols root
  have hscopes : ∀ i, i ∈ is ↔ ∃ s, g.node? i = some (.scope s) :=
    fun i => (hmem i).trans h.inside_root
  refine ⟨h.outlines source symbols root, h.arranges source symbols hsingle hnames,
    ?_, ?_, ?_, ?_, ?_, ?_⟩
  · intro w n hn hdecl
    obtain ⟨i, kind, hkind, hedge, hhome⟩ := h.exists_declaring hn hdecl
    obtain ⟨-, -, s, hs, -⟩ := h.attached _ hedge (Relation.binds_of_declares _ hkind)
    exact ⟨i, s, hhome, hs⟩
  · intro r w hr
    obtain ⟨e, he, rfl, rfl, hbinds⟩ := hsingle.exists_edge hr
    exact hnames e he hbinds
  · have hperm : is.Perm (g.positions Node.isScope) := by
      rw [List.perm_ext_iff_of_nodup hnodup (g.nodup_positions _)]
      intro i
      rw [hscopes, mem_positions]
      exact exists_scope_iff
    rw [ScopeOutline.scopeTotal, hparts, List.length_map, hperm.length_eq, length_positions]
    rfl
  · rw [ScopeOutline.definitionTotal, hparts, List.flatMap_map]
    refine h.length_flatMap_declared rfl attachment_eq_definitionToScope hnodup hscopes ?_
    intro i _
    exact (h.forall₂_definitions source symbols i).length_eq.symm.trans (List.length_mergeSort _)
  · rw [ScopeOutline.importTotal, hparts, List.flatMap_map]
    refine h.length_flatMap_declared rfl attachment_eq_importToScope hnodup hscopes ?_
    intro i _
    exact (h.forall₂_imports source symbols i).length_eq.symm.trans (List.length_mergeSort _)
  · rw [ScopeOutline.referenceTotal, hparts, List.flatMap_map]
    exact h.length_flatMap_contexts source symbols hnames hnodup hscopes

end Structured

/-- **The outline of a resolved graph is faithful.**  Take any graph built from events whose
scopes are ordered, and resolve it.  Whatever the source text and the symbol classes are, the
recursion over the scopes ends.  Its outline shows each scope once and inside its parent, each
definition and import once and in its home, and each bound reference once and with what it is
bound to, all in the order of spans.  So its totals are those of the graph. -/
theorem outline_faithful {top : Span} {symbols : SymbolTable} {events : List Event} {g : Graph}
    (hg : Graph.ofEvents top symbols events = .ok g)
    (hordered : ∀ s, .scopeStart s ∈ events → s.start.byte ≤ s.stop.byte) (source : String)
    (labels : SymbolTable) :
    ∃ g' counts, g.resolve = .ok (g', counts) ∧
      g'.FaithfulOutline source labels (g'.outline source labels root) := by
  have h := structured_ofEvents hg
  obtain ⟨g', counts, hresolve, hext, hsingle, hnames⟩ :=
    h.bindings_of_resolve (InnerScopes.ofEvents hg hordered) (unbound_ofEvents hg)
  exact ⟨g', counts, hresolve, (hext.structured h).faithfulOutline source labels hsingle hnames⟩

/-- Two equal uses of a function that leaves its scope, a use of an import, and one of nothing. -/
theorem outline_faithful_hoisted :
    let span (a b : Nat) : Span := ⟨⟨a, 0, a⟩, ⟨b, 0, b⟩⟩
    let events : List Event :=
      [.scopeStart (span 0 9), .definition (span 1 2) "f" .hoisted none,
        .imported (span 2 3) "g", .reference (span 4 5) "f" none, .reference (span 4 5) "f" none,
        .reference (span 6 7) "g" none, .reference (span 7 8) "h" none, .scopeEnd .zero]
    let g : Graph :=
      ⟨[.scope (span 0 10), .scope (span 0 9), .definition (span 1 2) "f" none,
          .imported (span 2 3) "g", .reference (span 4 5) "f" none,
          .reference (span 4 5) "f" none, .reference (span 6 7) "g" none,
          .reference (span 7 8) "h" none],
        [⟨1, 0, .scopeToScope⟩, ⟨2, 0, .definitionToScope⟩, ⟨3, 1, .importToScope⟩]⟩
    let g' : Graph :=
      { g with edges := g.edges ++ [⟨4, 2, .referenceToDefinition⟩,
          ⟨5, 2, .referenceToDefinition⟩, ⟨6, 3, .referenceToImport⟩] }
    Graph.ofEvents (span 0 10) ⟨[]⟩ events = .ok g ∧
      (∀ s, .scopeStart s ∈ events → s.start.byte ≤ s.stop.byte) ∧
      g.resolve = .ok (g', ⟨4, 2, 1, 1⟩) ∧
      g'.FaithfulOutline "{fg f gh};" ⟨[]⟩ (g'.outline "{fg f gh};" ⟨[]⟩ root) ∧
      (g'.outline "{fg f gh};" ⟨[]⟩ root).scopeTotal = 2 ∧
      (g'.outline "{fg f gh};" ⟨[]⟩ root).referenceTotal = 3 := by
  intro span events g g'
  have hordered : ∀ s, .scopeStart s ∈ events → s.start.byte ≤ s.stop.byte := by
    intro s hs
    simp only [events, List.mem_cons, Event.scopeStart.injEq, reduceCtorEq, List.not_mem_nil,
      or_false] at hs
    simp [hs, span]
  have hg : Graph.ofEvents (span 0 10) ⟨[]⟩ events = .ok g := by decide +kernel
  have hfirst : g.resolve = .ok (g', ⟨4, 2, 1, 1⟩) := by decide +kernel
  obtain ⟨_, _, hresolve, hfaithful⟩ := outline_faithful hg hordered "{fg f gh};" ⟨[]⟩
  rw [hfirst] at hresolve
  cases hresolve
  exact ⟨hg, hordered, hfirst, hfaithful, hfaithful.scopeTotal, hfaithful.referenceTotal⟩

end Graph
end NameBinding
