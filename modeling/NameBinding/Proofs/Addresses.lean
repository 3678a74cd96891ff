import Mathlib.Data.List.Forall2
import NameBinding.Proofs.Bracketing
import NameBinding.Proofs.Descent
import NameBinding.Proofs.Inventory

/-!
# Addresses of scopes

A node is named by its position, and that depends on all events before it.  The spans
of a scope and of the scopes around it do not, and since no two children of a scope
have one span, they tell scopes apart as well as positions do.  With scopes named by
these addresses, what a stream builds can be said without a graph: which scopes there
are, and what is declared in which of them.

## Main definitions

* `Address` — the spans from a scope outward.
* `Fact`, `Event.facts` — what a stream says about scopes and declarations.
* `Graph.At` — the scope at a position has an address.
* `Graph.Realizes` — the scopes and declarations of a graph are those of some facts.

## Main results

* `Structured.at_position_unique`, `Structured.at_address_unique` — positions and
  addresses of scopes determine each other.
* `Construction.Follows.push` — one event adds its facts.
* `Graph.ofEvents_realizes` — **the graph of a stream realizes the facts of the stream.**
* `Event.facts_append` — a bracketed stream adds the same facts wherever it stands among
  the open scopes.
-/

namespace NameBinding

/-- Where a scope lies: its span, then the spans of the scopes around it.  The root has
the empty address. -/
abbrev Address := List Span

namespace Address

/-- The span of the scope at an address, where `top` is that of the root. -/
def scopeSpan (top : Span) : Address → Span
  | [] => top
  | s :: _ => s

/-- The innermost open scope that contains a span, or else the root. -/
def enclosing (top : Span) (opened : List Address) (span : Span) : Address :=
  (opened.find? fun a => (scopeSpan top a).contains span).getD []

/-- The scope a definition is declared in. -/
def home (top : Span) (opened : List Address) (span : Span) : Scoping → Address
  | .localScope => enclosing top opened span
  | .hoisted => (enclosing top opened span).tail
  | .globalScope => []

/-- The scope that is opened by its span. -/
def entered (top : Span) (opened : List Address) (span : Span) : Address :=
  if scopeSpan top (enclosing top opened span) = span then enclosing top opened span
  else span :: enclosing top opened span

end Address

/-- What a stream says about its graph. -/
inductive Fact where
  /-- There is a scope. -/
  | scope (address : Address)
  /-- The node is declared in a scope. -/
  | declaration (home : Address) (node : Node)
  deriving DecidableEq

/-- The node a fact declares. -/
def Fact.node? : Fact → Option Node
  | .scope _ => none
  | .declaration _ n => some n

namespace Event

/-- The addresses of the open scopes after an event. -/
def openedAfter (top : Span) (opened : List Address) : Event → List Address
  | .scopeStart span => Address.entered top opened span :: opened
  | .scopeEnd _ => opened.tail
  | .definition .. | .imported .. | .reference .. => opened

/-- What an event adds while some scopes are open. -/
def fact? (top : Span) (symbols : SymbolTable) (opened : List Address) : Event → Option Fact
  | .scopeStart span => some (.scope (Address.entered top opened span))
  | .definition span text scoping symbol =>
      some (.declaration (Address.home top opened span scoping)
        (.definition span text (symbol.bind symbols.indexOf?)))
  | .imported span text =>
      some (.declaration (Address.enclosing top opened span) (.imported span text))
  | .scopeEnd _ | .reference .. => none

/-- What a stream adds, if at first the scopes `opened` are open. -/
def facts (top : Span) (symbols : SymbolTable) (opened : List Address) : List Event → List Fact
  | [] => []
  | e :: es => (e.fact? top symbols opened).toList ++ facts top symbols (e.openedAfter top opened) es

variable {top : Span} {symbols : SymbolTable}

theorem openedAfter_of_not_bracket {e : Event} (he : e.isBracket = false)
    (opened : List Address) : e.openedAfter top opened = opened := by
  cases e with
  | scopeStart | scopeEnd => cases he
  | definition | imported | reference => rfl

/-- **A bracketed stream leaves the open scopes as they are**, so what follows it adds
the same facts as without it. -/
theorem facts_append {w : List Event} (hw : Bracketed w) : ∀ (opened : List Address)
    (es : List Event), facts top symbols opened (w ++ es) =
      facts top symbols opened w ++ facts top symbols opened es := by
  induction hw with
  | nil => intro opened es; rfl
  | @single e w he _ ih =>
    intro opened es
    rw [List.cons_append, facts, facts, openedAfter_of_not_bracket he, ih, List.append_assoc]
  | @scope s inner w _ _ ihinner ihw =>
    intro opened es
    have heq : .scopeStart s :: (inner ++ .scopeEnd s :: w) ++ es =
        .scopeStart s :: (inner ++ .scopeEnd s :: (w ++ es)) := by simp
    rw [heq, facts, facts, ihinner, ihinner]
    simp only [facts, fact?, openedAfter, List.tail_cons, Option.toList_none, List.nil_append, ihw,
      List.append_assoc]

theorem filterMap_node?_fact? (e : Event) (opened : List Address) (es : List Event) :
    (e.fact? top symbols opened).toList.filterMap Fact.node? ++ es.filterMap (declaration? symbols) =
      (e :: es).filterMap (declaration? symbols) := by
  rw [List.filterMap_cons]
  cases e <;> rfl

/-- The declarations among the facts are those of the events. -/
theorem filterMap_node?_facts : ∀ (es : List Event) (opened : List Address),
    (facts top symbols opened es).filterMap Fact.node? = es.filterMap (declaration? symbols) := by
  intro es
  induction es with
  | nil => intro opened; rfl
  | cons e es ih =>
    intro opened
    rw [facts, List.filterMap_append, ih, filterMap_node?_fact?]

theorem scopeStart_of_mem_facts {s : Span} {a : Address} : ∀ {es : List Event}
    {opened : List Address}, .scope (s :: a) ∈ facts top symbols opened es → .scopeStart s ∈ es := by
  intro es
  induction es with
  | nil => intro opened h; cases h
  | cons e es ih =>
    intro opened h
    rw [facts, List.mem_append, Option.mem_toList] at h
    rcases h with h | h
    · cases e with
      | scopeStart span =>
        -- the scope that is entered has the span of the event, new or not
        simp only [fact?, Option.some.injEq, Fact.scope.injEq, Address.entered] at h
        split at h
        · next hspan =>
          rw [h] at hspan
          rw [← show s = span from hspan]
          exact List.mem_cons_self ..
        · obtain ⟨rfl, -⟩ := List.cons.inj h
          exact List.mem_cons_self ..
      | scopeEnd | definition | imported | reference => cases h
    · exact List.mem_cons_of_mem _ (ih h)

end Event

namespace Graph

/-! ### Scopes at addresses -/

/-- The scope at the position has the address. -/
inductive At (g : Graph) : Nat → Address → Prop
  | root : At g root []
  | child {p i : Nat} {a : Address} (hp : At g p a) (hi : g.IsChild p i) :
      At g i (g.spanOf i :: a)

/-- What is not the root lies in the scope at the rest of its address. -/
theorem At.of_cons {g : Graph} {i : Nat} {s : Span} {a : Address} (h : g.At i (s :: a)) :
    ∃ p, g.At p a ∧ g.IsChild p i ∧ g.spanOf i = s := by
  generalize hb : s :: a = b at h
  cases h with
  | root => cases hb
  | child hp hi =>
    obtain ⟨hspan, rfl⟩ := List.cons.inj hb
    exact ⟨_, hp, hi, hspan.symm⟩

/-- The node is declared in the scope at the address. -/
def DeclaredAt (g : Graph) (a : Address) (n : Node) : Prop :=
  ∃ p w kind, g.At p a ∧ Relation.declares kind = true ∧ (⟨w, p, kind⟩ : Edge) ∈ g.edges ∧
    g.node? w = some n

namespace Structured

variable {top : Span} {g : Graph}

/-- What has an address is a scope, with the span that comes first in the address. -/
theorem scope_of_at (h : g.Structured top) {i : Nat} {a : Address} (hi : g.At i a) :
    g.node? i = some (.scope (Address.scopeSpan top a)) := by
  cases hi with
  | root => exact h.node?_root
  | child _ hchild =>
    obtain ⟨-, s, hs⟩ := h.isChild_scope hchild
    rw [hs, Address.scopeSpan, Graph.spanOf_eq hs]
    rfl

theorem spanOf_of_at (h : g.Structured top) {i : Nat} {a : Address} (hi : g.At i a) :
    g.spanOf i = Address.scopeSpan top a := Graph.spanOf_eq (h.scope_of_at hi)

theorem at_lt (h : g.Structured top) {i : Nat} {a : Address} (hi : g.At i a) : i < g.order :=
  node?_lt (h.scope_of_at hi)

/-- Every scope has an address. -/
theorem exists_at (h : g.Structured top) :
    ∀ (i : Nat) (s : Span), g.node? i = some (.scope s) → ∃ a, g.At i a := by
  intro i
  -- parents come before their children
  induction i using Nat.strongRecOn with
  | _ i ih =>
    intro s hs
    by_cases hroot : i = root
    · subst hroot
      exact ⟨[], .root⟩
    · obtain ⟨p, hp⟩ := h.exists_parent hroot hs
      obtain ⟨hlt, t, ht, -⟩ := h.of_parent hp
      obtain ⟨a, ha⟩ := ih p hlt t ht
      exact ⟨_, .child ha (h.parent_eq_ok_iff.mp hp)⟩

/-- A scope has only one address. -/
theorem at_address_unique (h : g.Structured top) {i : Nat} {a b : Address} (ha : g.At i a)
    (hb : g.At i b) : a = b := by
  induction ha generalizing b with
  | root =>
    cases hb with
    | root => rfl
    | child _ hchild => exact absurd rfl (h.isChild_scope hchild).1
  | child hp hchild ih =>
    cases hb with
    | root => exact absurd rfl (h.isChild_scope hchild).1
    | child hq hchild' =>
      have hsame := h.eq_of_source_eq hchild hchild' rfl rfl rfl
      obtain ⟨-, hpq, -⟩ := Edge.mk.inj hsame
      subst hpq
      rw [ih hq]

/-- An address belongs to only one scope. -/
theorem at_position_unique (h : g.Structured top) {a : Address} :
    ∀ {i j : Nat}, g.At i a → g.At j a → i = j := by
  induction a with
  | nil =>
    intro i j hi hj
    cases hi
    cases hj
    rfl
  | cons s a ih =>
    intro i j hi hj
    obtain ⟨p, hp, hip, hspan⟩ := hi.of_cons
    obtain ⟨q, hq, hjq, hspan'⟩ := hj.of_cons
    obtain rfl := ih hp hq
    -- two children of one scope with one span are the same child
    refine Decidable.byContradiction fun hne => ?_
    exact h.siblings_ne _ hip _ hjq rfl rfl rfl hne (hspan.trans hspan'.symm)

/-- The scope around a scope is at the rest of its address. -/
theorem at_outerScope (h : g.Structured top) {i : Nat} {a : Address} (hi : g.At i a) :
    g.At ((g.outerScope? i).getD Graph.root) a.tail := by
  cases hi with
  | root =>
    rw [outerScope?, h.parent_root]
    exact .root
  | child hp hchild =>
    rw [outerScope?, h.parent_eq_ok_iff.mpr hchild]
    exact hp

end Structured

/-! ### Growing graphs -/

section Growing

variable {top : Span} {g g' : Graph}

/-- Addresses depend only on the edges that attach, and on the nodes these join. -/
theorem at_iff_of_attached (h : g.Structured top)
    (hedges : ∀ e : Edge, e.kind.binds = false → (e ∈ g'.edges ↔ e ∈ g.edges))
    (hnodes : ∀ i < g.order, g'.node? i = g.node? i) {i : Nat} {a : Address} :
    g'.At i a ↔ g.At i a := by
  have hspan : ∀ {p i}, g.IsChild p i → g'.spanOf i = g.spanOf i := by
    intro p i hi
    rw [spanOf, spanOf, hnodes i (h.isChild_lt hi).2]
  constructor
  · intro ha
    induction ha with
    | root => exact .root
    | child _ hi ih =>
      have hi' := (hedges _ rfl).mp hi
      rw [hspan hi']
      exact .child ih hi'
  · intro ha
    induction ha with
    | root => exact .root
    | child _ hi ih =>
      rw [← hspan hi]
      exact .child ih ((hedges _ rfl).mpr hi)

theorem declaredAt_iff_of_attached (h : g.Structured top)
    (hedges : ∀ e : Edge, e.kind.binds = false → (e ∈ g'.edges ↔ e ∈ g.edges))
    (hnodes : ∀ i < g.order, g'.node? i = g.node? i) {a : Address} {n : Node} :
    g'.DeclaredAt a n ↔ g.DeclaredAt a n := by
  constructor
  · rintro ⟨p, w, kind, hp, hkind, he, hw⟩
    have he' := (hedges _ (Relation.binds_of_declares _ hkind)).mp he
    rw [hnodes w (h.edge_lt he' (Relation.binds_of_declares _ hkind)).1] at hw
    exact ⟨p, w, kind, (at_iff_of_attached h hedges hnodes).mp hp, hkind, he', hw⟩
  · rintro ⟨p, w, kind, hp, hkind, he, hw⟩
    have hlt := (h.edge_lt he (Relation.binds_of_declares _ hkind)).1
    exact ⟨p, w, kind, (at_iff_of_attached h hedges hnodes).mpr hp, hkind,
      (hedges _ (Relation.binds_of_declares _ hkind)).mpr he, by rw [hnodes w hlt, hw]⟩

variable {n : Node} {kind : Relation} {p : Nat} {b : Address}

/-- A node more moves no scope. -/
theorem At.addInside (h : g.Structured top) {i : Nat} {a : Address} (hi : g.At i a) :
    (g.addInside n kind p).At i a := by
  induction hi with
  | root => exact .root
  | child _ hchild ih =>
    rw [← spanOf_addInside_of_lt (n := n) (h.isChild_lt hchild).2]
    exact .child ih (List.mem_append_left _ hchild)

/-- A scope of the larger graph was there before or is the new node. -/
theorem at_addInside (h : g.Structured top) (hp : g.At p b) {i : Nat} {a : Address}
    (hi : (g.addInside n kind p).At i a) :
    g.At i a ∨ (i = g.order ∧ kind = .scopeToScope ∧ a = n.span :: b) := by
  induction hi with
  | root => exact Or.inl .root
  | @child q i a _ hchild ih =>
    rcases List.mem_append.mp hchild with hold | hnew
    · obtain ⟨hqi, hio⟩ := h.isChild_lt hold
      rcases ih with hq | ⟨rfl, -⟩
      · left
        rw [spanOf_addInside_of_lt hio]
        exact .child hq hold
      · omega
    · obtain ⟨rfl, rfl, rfl⟩ := Edge.mk.inj (List.mem_singleton.mp hnew)
      rcases ih with hq | ⟨hq, -⟩
      · right
        rw [spanOf_addInside_order, h.at_address_unique hq hp]
        exact ⟨rfl, rfl, rfl⟩
      · have := h.at_lt hp
        omega

theorem at_order_withScope (h : g.Structured top) (hp : g.At p b) (span : Span) :
    (g.withScope span p).At g.order (span :: b) := by
  have hchild : (g.withScope span p).IsChild p g.order :=
    List.mem_append_right _ (List.mem_singleton.mpr rfl)
  have hat := At.child (At.addInside h hp) hchild
  rwa [spanOf_addInside_order] at hat

theorem at_addInside_iff (h : g.Structured top) (hp : g.At p b) {i : Nat} {a : Address}
    (hlt : i < g.order) : (g.addInside n kind p).At i a ↔ g.At i a := by
  refine ⟨fun hi => ?_, At.addInside h⟩
  rcases at_addInside h hp hi with hold | ⟨rfl, -⟩
  · exact hold
  · omega

/-- What is declared in the larger graph was declared before or is the new node. -/
theorem declaredAt_addInside (h : g.Structured top) (hp : g.At p b) {a : Address} {m : Node} :
    (g.addInside n kind p).DeclaredAt a m ↔
      g.DeclaredAt a m ∨ (kind.declares = true ∧ a = b ∧ m = n) := by
  constructor
  · rintro ⟨q, w, kind', hq, hkind, he, hw⟩
    rcases List.mem_append.mp he with hold | hnew
    · left
      obtain ⟨hwlt, hqlt⟩ := h.edge_lt hold (Relation.binds_of_declares _ hkind)
      rw [node?_addInside_of_lt hwlt] at hw
      exact ⟨q, w, kind', (at_addInside_iff h hp hqlt).mp hq, hkind, hold, hw⟩
    · right
      obtain ⟨rfl, rfl, rfl⟩ := Edge.mk.inj (List.mem_singleton.mp hnew)
      rw [node?_addInside, if_pos rfl, Option.some.injEq] at hw
      have hq' := (at_addInside_iff h hp (h.at_lt hp)).mp hq
      exact ⟨hkind, h.at_address_unique hq' hp, hw.symm⟩
  · rintro (⟨q, w, kind', hq, hkind, he, hw⟩ | ⟨hkind, rfl, rfl⟩)
    · have hlt := (h.edge_lt he (Relation.binds_of_declares _ hkind)).1
      exact ⟨q, w, kind', .addInside h hq, hkind, List.mem_append_left _ he,
        by rw [node?_addInside_of_lt hlt, hw]⟩
    · exact ⟨p, g.order, kind, .addInside h hp, hkind,
        List.mem_append_right _ (List.mem_singleton.mpr rfl), by simp [node?_addInside]⟩

end Growing

/-! ### Facts of a graph -/

/-- The graph has the scopes and the declarations that the facts say, at their addresses,
and no others. -/
structure Realizes (top : Span) (facts : List Fact) (g : Graph) : Prop where
  structured : g.Structured top
  scopes : ∀ a, (∃ i, g.At i a) ↔ a = [] ∨ .scope a ∈ facts
  declarations : ∀ a n, g.DeclaredAt a n ↔ .declaration a n ∈ facts

namespace Realizes

variable {top : Span} {facts facts' : List Fact} {g g' : Graph}

/-- The order of the facts does not matter. -/
theorem congr (h : g.Realizes top facts) (hfacts : ∀ f, f ∈ facts ↔ f ∈ facts') :
    g.Realizes top facts' where
  structured := h.structured
  scopes a := by rw [h.scopes, hfacts]
  declarations a n := by rw [h.declarations, hfacts]

theorem ofRoot (top : Span) : (Graph.ofRoot top).Realizes top [] where
  structured := .ofRoot top
  scopes a := by
    constructor
    · rintro ⟨i, hi⟩
      cases hi with
      | root => exact Or.inl rfl
      | child _ hchild => cases hchild
    · rintro (rfl | h)
      · exact ⟨_, .root⟩
      · cases h
  declarations a n := by
    constructor
    · rintro ⟨p, w, kind, -, -, he, -⟩
      cases he
    · intro h
      cases h

/-- Nodes that nothing attaches and edges that attach nothing change no fact. -/
theorem of_attached (h : g.Realizes top facts) (hg' : g'.Structured top)
    (hedges : ∀ e : Edge, e.kind.binds = false → (e ∈ g'.edges ↔ e ∈ g.edges))
    (hnodes : ∀ i < g.order, g'.node? i = g.node? i) : g'.Realizes top facts where
  structured := hg'
  scopes a := by
    rw [← h.scopes a]
    exact exists_congr fun i => at_iff_of_attached h.structured hedges hnodes
  declarations a n := by
    rw [← h.declarations a n]
    exact declaredAt_iff_of_attached h.structured hedges hnodes

/-- A scope that is there may be said to be there again. -/
theorem repeatScope (h : g.Realizes top facts) {i : Nat} {a : Address} (hi : g.At i a) :
    g.Realizes top (facts ++ [.scope a]) where
  structured := h.structured
  scopes b := by
    rw [h.scopes, List.mem_append, List.mem_singleton, Fact.scope.injEq]
    constructor
    · rintro (hb | hb)
      · exact Or.inl hb
      · exact Or.inr (Or.inl hb)
    · rintro (hb | hb | rfl)
      · exact Or.inl hb
      · exact Or.inr hb
      · exact (h.scopes b).mp ⟨i, hi⟩
  declarations b n := by
    rw [h.declarations]
    simp

theorem addScope (h : g.Realizes top facts) {span : Span} {p : Nat} {b : Address}
    (hp : g.At p b) (hfits : g.Fits (.scope span) p) :
    (g.withScope span p).Realizes top (facts ++ [.scope (span :: b)]) where
  structured := h.structured.addInside rfl hfits
  scopes a := by
    rw [List.mem_append, List.mem_singleton, Fact.scope.injEq, ← or_assoc, ← h.scopes a]
    constructor
    · rintro ⟨i, hi⟩
      rcases at_addInside h.structured hp hi with hold | ⟨-, -, rfl⟩
      · exact Or.inl ⟨i, hold⟩
      · exact Or.inr rfl
    · rintro (⟨i, hi⟩ | rfl)
      · exact ⟨i, .addInside h.structured hi⟩
      · exact ⟨g.order, at_order_withScope h.structured hp span⟩
  declarations a n := by
    rw [withScope, declaredAt_addInside h.structured hp, h.declarations]
    simp [Relation.declares]

theorem addDeclaration (h : g.Realizes top facts) {n : Node} {kind : Relation} {p : Nat}
    {b : Address} (hp : g.At p b) (hkind : n.attachment = some kind)
    (hdeclares : kind.declares = true) (hfits : g.Fits n p) :
    (g.addInside n kind p).Realizes top (facts ++ [.declaration b n]) where
  structured := h.structured.addInside hkind hfits
  scopes a := by
    have hmem : .scope a ∈ facts ++ [.declaration b n] ↔ .scope a ∈ facts := by simp
    rw [hmem, ← h.scopes a]
    constructor
    · rintro ⟨i, hi⟩
      rcases at_addInside h.structured hp hi with hold | ⟨-, rfl, -⟩
      · exact ⟨i, hold⟩
      · cases hdeclares
    · rintro ⟨i, hi⟩
      exact ⟨i, .addInside h.structured hi⟩
  declarations a m := by
    rw [declaredAt_addInside h.structured hp, h.declarations, List.mem_append, List.mem_singleton,
      Fact.declaration.injEq]
    simp [hdeclares]

theorem withReferences (h : g.Realizes top facts) (rs : List PendingReference) :
    (rs.foldl (fun g r => g.withReference r.span r.name r.symbol) g).Realizes top facts := by
  induction rs generalizing g with
  | nil => exact h
  | cons r rs ih =>
    refine ih (h.of_attached (h.structured.withReference r.span r.name r.symbol) ?_ ?_)
    · intro e _
      rfl
    · intro i hi
      exact node?_withReference_of_lt hi

end Realizes
end Graph

/-! ### Construction by facts -/

namespace Construction

/-- The construction has come as far as the facts say, and the scopes at the addresses
`opened` are open. -/
structure Follows (top : Span) (symbols : SymbolTable) (opened : List Address)
    (facts : List Fact) (c : Construction) : Prop where
  realizes : c.graph.Realizes top facts
  symbols_eq : c.symbols = symbols
  opened_at : List.Forall₂ c.graph.At c.opened opened
  bound : ∀ s ∈ c.bound, ∃ n ∈ facts.filterMap Fact.node?, n.span = s

namespace Follows

variable {top : Span} {symbols : SymbolTable} {opened : List Address} {facts : List Fact}
  {c c' : Construction}

theorem start (top : Span) (symbols : SymbolTable) :
    Follows top symbols [] [] (.start top symbols) :=
  ⟨.ofRoot top, rfl, .nil, by simp [Construction.start]⟩

theorem sound (h : Follows top symbols opened facts c) : c.Sound top := by
  obtain ⟨⟨hg, -, -⟩, -, hat, -⟩ := h
  refine ⟨hg, ?_⟩
  generalize c.opened = is at hat
  induction hat with
  | nil => intro i hi; cases hi
  | cons hi _ ih =>
    intro j hj
    rcases List.mem_cons.mp hj with rfl | hj
    · exact ⟨_, hg.scope_of_at hi⟩
    · exact ih j hj

/-- The innermost open scope around a span is found at its address. -/
theorem enclosingOpen (h : Follows top symbols opened facts c) (span : Span) :
    c.graph.At (c.enclosingOpen span) (Address.enclosing top opened span) := by
  obtain ⟨⟨hg, -, -⟩, -, hat, -⟩ := h
  unfold Construction.enclosingOpen Address.enclosing
  generalize c.opened = is at hat
  induction hat with
  | nil => exact .root
  | @cons i a is as hi _ ih =>
    have hsame : (c.graph.node? i).any (·.span.contains span) =
        (Address.scopeSpan top a).contains span := by
      rw [hg.scope_of_at hi]
      rfl
    rw [List.find?_cons, List.find?_cons, hsame]
    cases (Address.scopeSpan top a).contains span with
    | true => exact hi
    | false => exact ih

theorem homeOf (h : Follows top symbols opened facts c) (span : Span) (scoping : Scoping) :
    c.graph.At (c.homeOf span scoping) (Address.home top opened span scoping) := by
  cases scoping with
  | localScope => exact h.enclosingOpen span
  | hoisted => exact h.realizes.structured.at_outerScope (h.enclosingOpen span)
  | globalScope => exact .root

theorem openScope (h : Follows top symbols opened facts c) (span : Span) :
    Follows top symbols (Address.entered top opened span :: opened)
      (facts ++ [.scope (Address.entered top opened span)]) (c.openScope span) := by
  have hat := h.enclosingOpen span
  have hnode := h.realizes.structured.scope_of_at hat
  have hbound : ∀ a, ∀ s ∈ c.bound, ∃ n ∈ (facts ++ [Fact.scope a]).filterMap Fact.node?,
      n.span = s := by
    intro a
    rw [List.filterMap_append]
    simpa [Fact.node?] using h.bound
  unfold Construction.openScope
  simp only [hnode, Option.any_some, beq_iff_eq]
  split
  · next hspan =>
    have hentered : Address.entered top opened span = Address.enclosing top opened span :=
      if_pos hspan
    rw [hentered]
    exact ⟨h.realizes.repeatScope hat, h.symbols_eq, .cons hat h.opened_at, hbound _⟩
  · next hspan =>
    have hentered : Address.entered top opened span = span :: Address.enclosing top opened span :=
      if_neg hspan
    rw [hentered]
    split
    · next child hchild =>
      obtain ⟨hedge, rfl⟩ := scopeWithSpan?_eq_some hchild
      have hat' := Graph.At.child hat hedge
      exact ⟨h.realizes.repeatScope hat', h.symbols_eq, .cons hat' h.opened_at, hbound _⟩
    · next hnone =>
      obtain ⟨s, hs, hcontains⟩ := h.sound.enclosingOpen span
      have hne : c.graph.spanOf (c.enclosingOpen span) ≠ span := by
        rw [h.realizes.structured.spanOf_of_at hat]
        exact hspan
      have hfits : c.graph.Fits (.scope span) (c.enclosingOpen span) :=
        ⟨⟨s, hs, hcontains⟩, fun _ => ⟨hne, scopeWithSpan?_eq_none hnone⟩⟩
      exact ⟨h.realizes.addScope hat hfits, h.symbols_eq,
        .cons (Graph.at_order_withScope h.realizes.structured hat span)
          (h.opened_at.imp fun _ _ => .addInside h.realizes.structured), hbound _⟩

/-- A declaration is added where its address says. -/
theorem declare (h : Follows top symbols opened facts c) {n : Node} {kind : Relation} {p : Nat}
    {b : Address} (hp : c.graph.At p b) (hkind : n.attachment = some kind)
    (hdeclares : kind.declares = true)
    (hscope : ∃ s, c.graph.node? p = some (.scope s) ∧ (p = Graph.root ∨ s.contains n.span)) :
    Follows top symbols opened (facts ++ [.declaration b n])
      { c with graph := c.graph.addInside n kind p, bound := n.span :: c.bound } where
  realizes := by
    have hno : n.isScope ≠ true := by
      intro hn
      cases n <;> cases hn
      cases hkind
      cases hdeclares
    exact h.realizes.addDeclaration hp hkind hdeclares ⟨hscope, fun hn => absurd hn hno⟩
  symbols_eq := h.symbols_eq
  opened_at := h.opened_at.imp fun _ _ => .addInside h.realizes.structured
  bound := by
    intro s hs
    rw [List.filterMap_append]
    rcases List.mem_cons.mp hs with rfl | hs
    · exact ⟨n, List.mem_append_right _ (List.mem_singleton.mpr rfl), rfl⟩
    · obtain ⟨m, hm, hspan⟩ := h.bound s hs
      exact ⟨m, List.mem_append_left _ hm, hspan⟩

/-- **One event adds its facts**, if it does not declare a name where one is declared. -/
theorem push (h : Follows top symbols opened facts c) {e : Event} (hpush : c.push e = .ok c')
    (hnew : ∀ n, e.declaration? symbols = some n → ∀ m ∈ facts.filterMap Fact.node?,
      m.span ≠ n.span) :
    Follows top symbols (e.openedAfter top opened)
      (facts ++ (e.fact? top symbols opened).toList) c' := by
  -- so the span of the event is not yet bound
  have hfree : ∀ n, e.declaration? symbols = some n → n.span ∉ c.bound := by
    intro n hn hmem
    obtain ⟨m, hm, hspan⟩ := h.bound _ hmem
    exact hnew n hn m hm hspan
  cases e with
  | scopeStart span =>
    cases hpush
    exact h.openScope span
  | scopeEnd span =>
    rw [Construction.push] at hpush
    have hat := h.opened_at
    split at hpush
    · cases hpush
    · next i rest hopened =>
      cases hpush
      rw [hopened] at hat
      cases hat with
      | cons _ hrest =>
        rw [Event.fact?, Option.toList_none, List.append_nil]
        exact ⟨h.realizes, h.symbols_eq, hrest, h.bound⟩
  | definition span text scoping symbol =>
    have hspan : span ∉ c.bound := hfree _ rfl
    rw [Construction.push, if_neg hspan] at hpush
    cases hpush
    have hclass : c.classify symbol = symbol.bind symbols.indexOf? := by
      rw [classify, h.symbols_eq]
    rw [hclass]
    exact h.declare (n := .definition span text (symbol.bind symbols.indexOf?))
      (h.homeOf span scoping) rfl rfl (h.sound.homeOf span scoping)
  | imported span text =>
    have hspan : span ∉ c.bound := hfree _ rfl
    rw [Construction.push, if_neg hspan] at hpush
    cases hpush
    exact h.declare (h.enclosingOpen span) rfl rfl (h.sound.enclosingOpen span)
  | reference span text symbol =>
    cases hpush
    rw [Event.fact?, Option.toList_none, List.append_nil]
    exact ⟨h.realizes, h.symbols_eq, h.opened_at, h.bound⟩

/-- **A stream adds its facts**, if it declares no two names at one span. -/
theorem pushAll : ∀ (events : List Event) {opened : List Address} {facts : List Fact}
    {c : Construction}, Follows top symbols opened facts c → c.pushAll events = .ok c' →
    (facts.filterMap Fact.node? ++ events.filterMap (Event.declaration? symbols)).Pairwise
      (fun m n => m.span ≠ n.span) →
    ∃ opened', Follows top symbols opened' (facts ++ Event.facts top symbols opened events) c' := by
  intro events
  induction events with
  | nil =>
    intro opened facts c h hpush _
    cases hpush
    exact ⟨opened, by simpa [Event.facts] using h⟩
  | cons e events ih =>
    intro opened facts c h hpush hdistinct
    obtain ⟨d, hd, hrest⟩ := pushAll_cons_eq_ok.mp hpush
    have hsplit : (facts ++ (e.fact? top symbols opened).toList).filterMap Fact.node? ++
        events.filterMap (Event.declaration? symbols) =
        facts.filterMap Fact.node? ++ (e :: events).filterMap (Event.declaration? symbols) := by
      rw [List.filterMap_append, List.append_assoc, Event.filterMap_node?_fact?]
    have hnew : ∀ n, e.declaration? symbols = some n → ∀ m ∈ facts.filterMap Fact.node?,
        m.span ≠ n.span := by
      intro n hn m hm
      refine (List.pairwise_append.mp hdistinct).2.2 m hm n ?_
      rw [List.filterMap_cons, hn]
      exact List.mem_cons_self ..
    obtain ⟨opened', h'⟩ := ih (h.push hd hnew) hrest (hsplit ▸ hdistinct)
    exact ⟨opened', by rwa [Event.facts, ← List.append_assoc]⟩

end Follows
end Construction

/-- **The graph of a stream realizes the facts of the stream**, if it declares no two
names at one span. -/
theorem Graph.ofEvents_realizes {top : Span} {symbols : SymbolTable} {events : List Event}
    {g : Graph} (hg : Graph.ofEvents top symbols events = .ok g)
    (hdistinct : (events.filterMap (Event.declaration? symbols)).Pairwise
      fun m n => m.span ≠ n.span) : g.Realizes top (Event.facts top symbols [] events) := by
  obtain ⟨c, hc, hfinish⟩ := Graph.ofEvents_eq_ok hg
  obtain ⟨opened, h⟩ := Construction.Follows.pushAll events (.start top symbols) hc hdistinct
  unfold Construction.finish at hfinish
  split at hfinish <;> cases hfinish
  exact h.realizes.withReferences c.uses

end NameBinding
