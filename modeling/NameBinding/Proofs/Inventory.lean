import NameBinding.Proofs.Growth

/-!
# The nodes of a built graph

What a stream declares and uses decides which nodes its graph has besides the scopes.
Of several declarations at one span only the first becomes a node, references at the
span of a declaration become none, and both stand in the order of the stream.

## Main definitions

* `Event.declaration?`, `Event.use?` — the node or the reference an event asks for.
* `Node.firsts` — of the nodes of one span only the first.
* `Event.firstDeclarations`, `Event.uses` — the events that become nodes.

## Main results

* `Construction.push_cases` — what one event can do.
* `Graph.declarations_ofEvents`, `Graph.references_ofEvents` — **the declarations and
  the references of the graph of a stream, in order.**
* `Graph.inventory_ofEvents` — **nothing a stream names is lost, repeated or made up.**
-/

namespace NameBinding

/-- The definition or import an event declares. -/
def Event.declaration? (symbols : SymbolTable) : Event → Option Node
  | .definition span text _ symbol => some (.definition span text (symbol.bind symbols.indexOf?))
  | .imported span text => some (.imported span text)
  | .scopeStart _ | .scopeEnd _ | .reference .. => none

/-- The reference an event makes. -/
def Event.use? (symbols : SymbolTable) : Event → Option PendingReference
  | .reference span text symbol => some ⟨span, text, symbol.bind symbols.indexOf?⟩
  | .scopeStart _ | .scopeEnd _ | .definition .. | .imported .. => none

/-- The node of a reference. -/
def PendingReference.node (r : PendingReference) : Node := .reference r.span r.name r.symbol

/-! ### First declarations -/

/-- The nodes without those whose span was seen before. -/
def Node.firsts (seen : List Span) : List Node → List Node
  | [] => []
  | n :: ns => if n.span ∈ seen then firsts seen ns else n :: firsts (n.span :: seen) ns

namespace Node

theorem firsts_sublist : ∀ (ns : List Node) (seen : List Span), (firsts seen ns).Sublist ns := by
  intro ns
  induction ns with
  | nil => intro seen; exact .slnil
  | cons n ns ih =>
    intro seen
    rw [firsts]
    split
    · exact (ih seen).cons n
    · exact (ih _).cons_cons n

theorem mem_firsts : ∀ (ns : List Node) (seen : List Span) (n : Node),
    n ∈ firsts seen ns ↔ n.span ∉ seen ∧ ns.find? (·.span == n.span) = some n := by
  intro ns
  induction ns with
  | nil => intro seen n; simp [firsts]
  | cons m ns ih =>
    intro seen n
    rw [firsts, List.find?_cons]
    by_cases hspan : m.span = n.span
    · simp only [hspan, beq_self_eq_true, Option.some.injEq]
      split
      · next hseen =>
        rw [ih]
        exact ⟨fun h => absurd hseen h.1, fun h => absurd hseen h.1⟩
      · next hseen =>
        rw [List.mem_cons, ih]
        constructor
        · rintro (rfl | ⟨hno, -⟩)
          · exact ⟨hseen, rfl⟩
          · exact absurd (List.mem_cons_self ..) hno
        · rintro ⟨-, rfl⟩
          exact Or.inl rfl
    · have hbeq : (m.span == n.span) = false := by simpa using hspan
      simp only [hbeq]
      split
      · rw [ih]
      · rw [List.mem_cons, ih, List.mem_cons]
        constructor
        · rintro (rfl | ⟨hno, hfind⟩)
          · exact absurd rfl hspan
          · exact ⟨fun h => hno (Or.inr h), hfind⟩
        · rintro ⟨hno, hfind⟩
          exact Or.inr ⟨fun h => h.elim (fun h => hspan h.symm) hno, hfind⟩

theorem firsts_congr {seen seen' : List Span} (h : ∀ s, s ∈ seen ↔ s ∈ seen') :
    ∀ ns, firsts seen ns = firsts seen' ns := by
  intro ns
  induction ns generalizing seen seen' with
  | nil => rfl
  | cons n ns ih =>
    simp only [firsts, h n.span]
    split
    · exact ih h
    · congr 1
      refine ih fun s => ?_
      rw [List.mem_cons, List.mem_cons, h s]

theorem firsts_append : ∀ (ns ms : List Node) (seen : List Span),
    firsts seen (ns ++ ms) = firsts seen ns ++ firsts (seen ++ ns.map Node.span) ms := by
  intro ns ms
  induction ns with
  | nil => intro seen; simp [firsts]
  | cons n ns ih =>
    intro seen
    rw [List.cons_append, firsts, firsts]
    split
    · next hseen =>
      have hmem : ∀ s, s ∈ seen ++ ns.map span ↔ s ∈ seen ++ (n :: ns).map span := by
        intro s
        simp only [List.mem_append, List.map_cons, List.mem_cons]
        exact ⟨fun h => h.imp_right Or.inr,
          fun h => h.elim Or.inl fun h => h.elim (fun h => Or.inl (h ▸ hseen)) Or.inr⟩
      rw [ih, firsts_congr hmem ms]
    · have hmem : ∀ s, s ∈ n.span :: seen ++ ns.map span ↔ s ∈ seen ++ (n :: ns).map span := by
        intro s
        simp only [List.cons_append, List.mem_append, List.map_cons, List.mem_cons]
        exact or_left_comm
      rw [ih, firsts_congr hmem ms, List.cons_append]

/-- No span is kept twice. -/
theorem pairwise_firsts : ∀ (ns : List Node) (seen : List Span),
    (firsts seen ns).Pairwise fun a b => a.span ≠ b.span := by
  intro ns
  induction ns with
  | nil => intro seen; exact .nil
  | cons n ns ih =>
    intro seen
    rw [firsts]
    split
    · exact ih seen
    · rw [List.pairwise_cons]
      refine ⟨fun m hm heq => ?_, ih _⟩
      exact ((mem_firsts ns _ m).mp hm).1 (heq ▸ List.mem_cons_self ..)

end Node

/-! ### One event -/

namespace Construction

variable {c c' : Construction}

/-- **What one event can do**: change the scopes only, repeat a declaration, make a new
one, or add a reference. -/
theorem push_cases {e : Event} (h : c.push e = .ok c') :
    (e.declaration? c.symbols = none ∧ e.use? c.symbols = none ∧ c'.symbols = c.symbols ∧
        c'.bound = c.bound ∧ c'.pending = c.pending ∧
        (c'.graph.nodes = c.graph.nodes ∨ ∃ s, c'.graph.nodes = c.graph.nodes ++ [.scope s])) ∨
      (∃ n, e.declaration? c.symbols = some n ∧ e.use? c.symbols = none ∧ n.span ∈ c.bound ∧
        c' = c) ∨
      (∃ n kind p, e.declaration? c.symbols = some n ∧ e.use? c.symbols = none ∧
        n.span ∉ c.bound ∧ n.declaresName = true ∧
        c' = { c with graph := c.graph.addInside n kind p, bound := n.span :: c.bound }) ∨
      ∃ r, e.declaration? c.symbols = none ∧ e.use? c.symbols = some r ∧
        c' = { c with pending := c.pending ++ [r] } := by
  cases e with
  | scopeStart span =>
    left
    cases h
    refine ⟨rfl, rfl, ?_⟩
    unfold openScope
    simp only
    split
    · exact ⟨rfl, rfl, rfl, Or.inl rfl⟩
    · split
      · exact ⟨rfl, rfl, rfl, Or.inl rfl⟩
      · exact ⟨rfl, rfl, rfl, Or.inr ⟨span, rfl⟩⟩
  | scopeEnd span =>
    left
    rw [push] at h
    split at h <;> cases h
    exact ⟨rfl, rfl, rfl, rfl, rfl, Or.inl rfl⟩
  | definition span text scoping symbol =>
    right
    rw [push] at h
    split at h <;> cases h
    · next hbound => exact Or.inl ⟨_, rfl, rfl, hbound, rfl⟩
    · next hbound => exact Or.inr (Or.inl ⟨_, _, _, rfl, rfl, hbound, rfl, rfl⟩)
  | imported span text =>
    right
    rw [push] at h
    split at h <;> cases h
    · next hbound => exact Or.inl ⟨_, rfl, rfl, hbound, rfl⟩
    · next hbound => exact Or.inr (Or.inl ⟨_, _, _, rfl, rfl, hbound, rfl, rfl⟩)
  | reference span text symbol =>
    right; right; right
    cases h
    exact ⟨_, rfl, rfl, rfl⟩

/-! ### A stream -/

/-- What a stream adds to a construction: its first declarations and its references. -/
structure Adds (symbols : SymbolTable) (events : List Event) (c c' : Construction) : Prop where
  symbols_eq : c'.symbols = symbols
  declarations : c'.graph.nodes.filter Node.declaresName =
    c.graph.nodes.filter Node.declaresName ++
      Node.firsts c.bound (events.filterMap (Event.declaration? symbols))
  references : c'.graph.nodes.filter Node.isReference = c.graph.nodes.filter Node.isReference
  pending : c'.pending = c.pending ++ events.filterMap (Event.use? symbols)
  bound : ∀ s, s ∈ c'.bound ↔
    s ∈ c.bound ∨ ∃ n ∈ events.filterMap (Event.declaration? symbols), n.span = s

theorem adds_push {e : Event} (h : c.push e = .ok c') : Adds c.symbols [e] c c' := by
  rcases push_cases h with ⟨hd, hu, hsym, hbound, hpending, hnodes⟩ | ⟨n, hd, hu, hseen, rfl⟩ |
    ⟨n, kind, p, hd, hu, hseen, hdecl, rfl⟩ | ⟨r, hd, hu, rfl⟩
  · refine ⟨hsym, ?_, ?_, ?_, ?_⟩
    · rcases hnodes with hn | ⟨s, hn⟩
      · simp [hn, hd, Node.firsts]
      · simp [hn, hd, Node.firsts, Node.declaresName, Node.isDefinition, Node.isImport]
    · rcases hnodes with hn | ⟨s, hn⟩
      · rw [hn]
      · simp [hn, Node.isReference]
    · simp [hpending, hu]
    · simp [hbound, hd]
  · refine ⟨rfl, ?_, rfl, ?_, ?_⟩
    · simp [hd, Node.firsts, hseen]
    · simp [hu]
    · intro s
      simp only [List.filterMap_cons, hd, List.filterMap_nil, List.mem_singleton, exists_eq_left]
      exact ⟨Or.inl, fun hs => hs.elim id fun hs => hs ▸ hseen⟩
  · refine ⟨rfl, ?_, ?_, ?_, ?_⟩
    · simp [hd, Node.firsts, hseen, Graph.addInside, hdecl]
    · have hno : n.isReference = false := by
        cases n <;> simp_all [Node.declaresName, Node.isDefinition, Node.isImport, Node.isReference]
      simp [Graph.addInside, hno]
    · simp [hu]
    · intro s
      simp only [List.filterMap_cons, hd, List.filterMap_nil, List.mem_singleton, exists_eq_left]
      rw [List.mem_cons]
      exact ⟨fun hs => hs.elim (fun hs => Or.inr hs.symm) Or.inl,
        fun hs => hs.elim Or.inr fun hs => Or.inl hs.symm⟩
  · refine ⟨rfl, ?_, rfl, ?_, ?_⟩
    · simp [hd, Node.firsts]
    · simp [hu]
    · simp [hd]

namespace Adds

variable {symbols : SymbolTable}

theorem nil (c : Construction) : Adds c.symbols [] c c :=
  ⟨rfl, by simp [Node.firsts], rfl, by simp, by simp⟩

theorem append {es es' : List Event} {d : Construction} (h : Adds symbols es c d)
    (h' : Adds symbols es' d c') : Adds symbols (es ++ es') c c' := by
  refine ⟨h'.symbols_eq, ?_, h'.references.trans h.references, ?_, ?_⟩
  · have hmem : ∀ s, s ∈ d.bound ↔
        s ∈ c.bound ++ (es.filterMap (Event.declaration? symbols)).map Node.span := by
      intro s
      rw [h.bound, List.mem_append, List.mem_map]
    rw [h'.declarations, h.declarations, List.append_assoc, List.filterMap_append,
      Node.firsts_append, Node.firsts_congr hmem]
  · rw [h'.pending, h.pending, List.append_assoc, List.filterMap_append]
  · intro s
    rw [h'.bound, h.bound, List.filterMap_append]
    simp only [List.mem_append, or_and_right, exists_or, or_assoc]

end Adds

/-- An accepted stream adds what its events add. -/
theorem adds_pushAll : ∀ (events : List Event) (c c' : Construction),
    c.pushAll events = .ok c' → Adds c.symbols events c c' := by
  intro events
  induction events with
  | nil =>
    intro c c' h
    cases h
    exact .nil c
  | cons e events ih =>
    intro c c' h
    obtain ⟨d, hpush, htail⟩ := pushAll_cons_eq_ok.mp h
    have hfirst := adds_push hpush
    have hrest := ih d c' htail
    rw [hfirst.symbols_eq] at hrest
    exact hfirst.append hrest

theorem nodes_withReferences : ∀ (rs : List PendingReference) (g : Graph),
    (rs.foldl (fun g r => g.withReference r.span r.name r.symbol) g).nodes =
      g.nodes ++ rs.map PendingReference.node := by
  intro rs
  induction rs with
  | nil => intro g; simp
  | cons r rs ih =>
    intro g
    rw [List.foldl_cons, ih]
    simp [Graph.withReference, PendingReference.node]

end Construction

namespace Graph

variable {top : Span} {symbols : SymbolTable} {events : List Event} {g : Graph}

/-- A finished graph has the nodes of the construction, and then the uses. -/
theorem nodes_ofEvents (h : Graph.ofEvents top symbols events = .ok g) :
    ∃ c, Construction.Adds symbols events (.start top symbols) c ∧
      g.nodes = c.graph.nodes ++ c.uses.map PendingReference.node := by
  obtain ⟨c, hc, hg⟩ := Graph.ofEvents_eq_ok h
  refine ⟨c, Construction.adds_pushAll events _ c hc, ?_⟩
  unfold Construction.finish at hg
  split at hg <;> cases hg
  exact Construction.nodes_withReferences c.uses c.graph

/-- **The declarations of a graph are the first ones of each span, in order.** -/
theorem declarations_ofEvents (h : Graph.ofEvents top symbols events = .ok g) :
    g.nodes.filter Node.declaresName =
      Node.firsts [] (events.filterMap (Event.declaration? symbols)) := by
  obtain ⟨c, hadds, hnodes⟩ := nodes_ofEvents h
  have hrefs : (c.uses.map PendingReference.node).filter Node.declaresName = [] := by
    rw [List.filter_eq_nil_iff]
    intro n hn
    obtain ⟨r, -, rfl⟩ := List.mem_map.mp hn
    simp [PendingReference.node, Node.declaresName, Node.isDefinition, Node.isImport]
  rw [hnodes, List.filter_append, hrefs, hadds.declarations, List.append_nil]
  rfl

/-- **The references of a graph are those at no span of a declaration, in order.** -/
theorem references_ofEvents (h : Graph.ofEvents top symbols events = .ok g) :
    g.nodes.filter Node.isReference =
      ((events.filterMap (Event.use? symbols)).filter fun r =>
        r.span ∉ (events.filterMap (Event.declaration? symbols)).map Node.span).map
          PendingReference.node := by
  obtain ⟨c, hadds, hnodes⟩ := nodes_ofEvents h
  have hrefs : (c.uses.map PendingReference.node).filter Node.isReference =
      c.uses.map PendingReference.node := by
    rw [List.filter_eq_self]
    intro n hn
    obtain ⟨r, -, rfl⟩ := List.mem_map.mp hn
    rfl
  have hstart : (Construction.start top symbols).graph.nodes.filter Node.isReference = [] := rfl
  rw [hnodes, List.filter_append, hrefs, hadds.references, hstart, List.nil_append,
    Construction.uses, hadds.pending]
  congr 1
  refine List.filter_congr fun r _ => ?_
  have hbound : r.span ∈ c.bound ↔
      r.span ∈ (events.filterMap (Event.declaration? symbols)).map Node.span := by
    rw [hadds.bound, List.mem_map]
    exact or_iff_right List.not_mem_nil
  simp only [hbound]

end Graph

/-! ### Events that become nodes -/

namespace Event

/-- Does the event declare a name? -/
def declares : Event → Bool
  | .definition .. | .imported .. => true
  | .scopeStart _ | .scopeEnd _ | .reference .. => false

def isReference : Event → Bool
  | .reference .. => true
  | .scopeStart _ | .scopeEnd _ | .definition .. | .imported .. => false

/-- Does one of the events declare a name at the span? -/
def declaredIn (span : Span) (events : List Event) : Bool :=
  events.any fun d => d.declares && d.span == span

/-- The events that declare a name at a span where no event before them does. -/
def firstDeclarations (events : List Event) : List Event :=
  (events.zipIdx.filter fun p =>
    p.1.declares && !declaredIn p.1.span (events.take p.2)).map Prod.fst

/-- The references at spans where no event, before or after them, declares a name. -/
def uses (events : List Event) : List Event :=
  events.filter fun e => e.isReference && !declaredIn e.span events

/-- The node an event asks for, if it is no scope. -/
def node? (symbols : SymbolTable) (e : Event) : Option Node :=
  (e.declaration? symbols).or ((e.use? symbols).map PendingReference.node)

variable {symbols : SymbolTable}

theorem declares_of_declaration? {e : Event} {n : Node} (h : e.declaration? symbols = some n) :
    e.declares = true ∧ n.span = e.span := by
  cases e with
  | definition | imported =>
    cases h
    exact ⟨rfl, rfl⟩
  | scopeStart | scopeEnd | reference => cases h

theorem declares_eq_false {e : Event} (h : e.declaration? symbols = none) : e.declares = false := by
  cases e with
  | definition | imported => cases h
  | scopeStart | scopeEnd | reference => rfl

/-- The spans that declare a name are those of the declarations. -/
theorem declaredIn_iff (symbols : SymbolTable) {span : Span} {events : List Event} :
    declaredIn span events = true ↔
      span ∈ (events.filterMap (declaration? symbols)).map Node.span := by
  simp only [declaredIn, List.any_eq_true, Bool.and_eq_true, beq_iff_eq, List.mem_map,
    List.mem_filterMap]
  constructor
  · rintro ⟨d, hd, hdecl, hspan⟩
    cases hn : d.declaration? symbols with
    | none =>
      rw [declares_eq_false hn] at hdecl
      cases hdecl
    | some n => exact ⟨n, ⟨d, hd, hn⟩, (declares_of_declaration? hn).2.trans hspan⟩
  · rintro ⟨n, ⟨d, hd, hn⟩, hspan⟩
    obtain ⟨hdecl, hns⟩ := declares_of_declaration? hn
    exact ⟨d, hd, hdecl, hns.symm.trans hspan⟩

theorem declaredIn_eq_false_iff (symbols : SymbolTable) {span : Span} {events : List Event} :
    declaredIn span events = false ↔
      span ∉ (events.filterMap (declaration? symbols)).map Node.span := by
  rw [← declaredIn_iff, Bool.not_eq_true]

/-- Going through a stream with the spans seen so far finds the first declarations. -/
theorem firsts_eq_zipIdx : ∀ (rest done : List Event),
    Node.firsts ((done.filterMap (declaration? symbols)).map Node.span)
        (rest.filterMap (declaration? symbols)) =
      (((rest.zipIdx done.length).filter fun p =>
        p.1.declares && !declaredIn p.1.span ((done ++ rest).take p.2)).map Prod.fst).filterMap
          (node? symbols) := by
  intro rest
  induction rest with
  | nil => intro done; rfl
  | cons e rest ih =>
    intro done
    -- the events before `e` are those that are done
    have hrest := ih (done ++ [e])
    rw [List.append_assoc, List.singleton_append, List.length_append, List.length_singleton,
      List.filterMap_append] at hrest
    rw [List.zipIdx_cons, List.filter_cons, List.take_left]
    cases hn : e.declaration? symbols with
    | none =>
      have hskip : [e].filterMap (declaration? symbols) = [] := by simp [hn]
      rw [hskip, List.append_nil] at hrest
      rw [List.filterMap_cons_none hn, hrest, declares_eq_false hn]
      rfl
    | some n =>
      obtain ⟨hdecl, hspan⟩ := declares_of_declaration? hn
      have hone : [e].filterMap (declaration? symbols) = [n] := by simp [hn]
      rw [hone, List.map_append, List.map_singleton] at hrest
      rw [List.filterMap_cons_some hn, Node.firsts, hspan, hdecl, Bool.true_and]
      rw [hspan] at hrest
      cases hin : declaredIn e.span done with
      | true =>
        -- a span that is repeated is no news for what follows
        have hmem := (declaredIn_iff symbols).mp hin
        rw [if_pos hmem, if_neg (by simp), ← hrest]
        refine Node.firsts_congr (fun s => ?_) _
        rw [List.mem_append, List.mem_singleton]
        exact ⟨Or.inl, fun hs => hs.elim id fun hs => hs ▸ hmem⟩
      | false =>
        have hnew := (declaredIn_eq_false_iff symbols).mp hin
        have hnode : e.node? symbols = some n := by rw [node?, hn, Option.some_or]
        rw [if_neg hnew, if_pos (by simp), List.map_cons, List.filterMap_cons_some hnode, ← hrest]
        congr 1
        refine Node.firsts_congr (fun s => ?_) _
        rw [List.mem_cons, List.mem_append, List.mem_singleton]
        exact or_comm

/-- The references that are uses, as events and as nodes. -/
theorem filterMap_uses (events : List Event) :
    (uses events).filterMap (node? symbols) =
      ((events.filterMap (use? symbols)).filter fun r =>
        r.span ∉ (events.filterMap (declaration? symbols)).map Node.span).map
          PendingReference.node := by
  rw [uses, List.filterMap_filter, List.filter_filterMap, List.map_filterMap]
  congr 1
  funext e
  cases e with
  | reference span text symbol =>
    cases hin : declaredIn span events with
    | true =>
      have hmem := (declaredIn_iff symbols).mp hin
      simp only [Event.span, isReference, use?, hin, Option.filter_some, hmem]
      rfl
    | false =>
      have hnew := (declaredIn_eq_false_iff symbols).mp hin
      simp only [Event.span, isReference, use?, hin, Option.filter_some, hnew]
      rfl
  | scopeStart | scopeEnd | definition | imported => rfl

end Event

namespace Graph

variable {top : Span} {symbols : SymbolTable} {events : List Event} {g : Graph}

/-- References come after everything else. -/
theorem lt_of_isReference (h : Graph.ofEvents top symbols events = .ok g) {i j : Nat} {m n : Node}
    (hi : g.node? i = some m) (hj : g.node? j = some n) (hm : m.isReference = false)
    (hn : n.isReference = true) : i < j := by
  obtain ⟨c, hadds, hnodes⟩ := nodes_ofEvents h
  rw [node?, hnodes] at hi hj
  have hbefore : i < c.graph.nodes.length := by
    apply Nat.lt_of_not_le
    intro hle
    rw [List.getElem?_append_right hle] at hi
    obtain ⟨r, -, rfl⟩ := List.mem_map.mp (List.mem_of_getElem? hi)
    cases hm
  have hafter : c.graph.nodes.length ≤ j := by
    apply Nat.le_of_not_lt
    intro hlt
    rw [List.getElem?_append_left hlt] at hj
    -- before the stream ends there are no references in the graph
    have hmem : n ∈ c.graph.nodes.filter Node.isReference :=
      List.mem_filter.mpr ⟨List.mem_of_getElem? hj, hn⟩
    rw [hadds.references] at hmem
    cases hmem
  omega

/-- **Nothing a stream names is lost, repeated or made up.**  The definitions and imports of
its graph are those events that are the first to declare a name at their span, the
references are those at spans that declare none, both in the order of the stream, and all
references come after everything else. -/
theorem inventory_ofEvents (h : Graph.ofEvents top symbols events = .ok g) :
    g.nodes.filter Node.declaresName =
        (Event.firstDeclarations events).filterMap (Event.node? symbols) ∧
      g.nodes.filter Node.isReference = (Event.uses events).filterMap (Event.node? symbols) ∧
      ∀ i j m n, g.node? i = some m → g.node? j = some n → m.isReference = false →
        n.isReference = true → i < j := by
  refine ⟨?_, ?_, fun i j m n => lt_of_isReference h⟩
  · rw [declarations_ofEvents h]
    exact Event.firsts_eq_zipIdx events []
  · rw [references_ofEvents h, Event.filterMap_uses]

/-- A name used before it is imported and then defined at the same span, in a scope that is
opened twice, and used again elsewhere. -/
theorem inventory_ofEvents_repeated :
    let span (a b : Nat) : Span := ⟨⟨a, 0, a⟩, ⟨b, 0, b⟩⟩
    let events : List Event :=
      [.reference (span 3 4) "x" none, .scopeStart (span 2 8), .reference (span 5 6) "x" (some "var"),
        .imported (span 3 4) "x", .scopeStart (span 2 8), .definition (span 3 4) "x" .hoisted none,
        .definition (span 7 8) "y" .hoisted (some "var"), .reference (span 7 8) "y" none,
        .scopeEnd (span 2 8), .scopeEnd (span 2 8)]
    ∃ g, Graph.ofEvents (span 0 9) ⟨[["fun"], ["var"]]⟩ events = .ok g ∧
      g.nodes.filter Node.declaresName =
        [.imported (span 3 4) "x", .definition (span 7 8) "y" (some ⟨1, 0⟩)] ∧
      g.nodes.filter Node.isReference = [.reference (span 5 6) "x" (some ⟨1, 0⟩)] ∧
      ∀ i m, g.node? i = some m → m.isReference = false → i < 4 := by
  intro span events
  have hg : Graph.ofEvents (span 0 9) ⟨[["fun"], ["var"]]⟩ events = .ok _ := rfl
  obtain ⟨hdeclared, hused, hlast⟩ := inventory_ofEvents hg
  exact ⟨_, hg, hdeclared.trans rfl, hused.trans rfl,
    fun i m hi hm => hlast i 4 m _ hi rfl hm rfl⟩

end Graph
end NameBinding
