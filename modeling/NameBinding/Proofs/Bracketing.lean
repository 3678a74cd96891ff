import NameBinding.Proofs.Regions
import NameBinding.Proofs.Totality

/-!
# Bracketed streams

Scope starts and scope ends are brackets.  In a properly bracketed stream every scope
that starts also ends, with the span it started with, and what stands between the two
is properly bracketed again.  Such a stream is always accepted, and it leaves the open
scopes as it found them.  The events of captures are of this kind, however the captures
overlap: a scope is closed only while it is the innermost open one, and at the end all
of them are.

## Main definitions

* `Event.Bracketed` — properly bracketed streams.
* `Event.Closing` — streams that are so once some scopes have been opened.

## Main results

* `Construction.pushAll_bracketed` — a bracketed stream is accepted in every state.
* `Capture.emit_closing` — the events of captures close what was open, and nothing else.
* `Capture.events_bracketed` — **captures never make a malformed stream.**
-/

namespace NameBinding
namespace Event

/-- Does a scope start or end with the event? -/
def isBracket : Event → Bool
  | .scopeStart _ | .scopeEnd _ => true
  | .definition .. | .imported .. | .reference .. => false

/-- Scope starts and ends are matched, and a scope ends with the span it starts with. -/
inductive Bracketed : List Event → Prop
  | nil : Bracketed []
  | single {e : Event} {w : List Event} (he : e.isBracket = false) (hw : Bracketed w) :
      Bracketed (e :: w)
  | scope {s : Span} {inner w : List Event} (hinner : Bracketed inner) (hw : Bracketed w) :
      Bracketed (.scopeStart s :: (inner ++ .scopeEnd s :: w))

/-- The stream first closes the open scopes, given innermost first, with bracketed
streams in between, and is bracketed from there on. -/
inductive Closing : List Span → List Event → Prop
  | done {w : List Event} (hw : Bracketed w) : Closing [] w
  | close {s : Span} {opened : List Span} {inner w : List Event} (hinner : Bracketed inner)
      (hw : Closing opened w) : Closing (s :: opened) (inner ++ .scopeEnd s :: w)

namespace Bracketed

theorem append {u w : List Event} (hu : Bracketed u) (hw : Bracketed w) : Bracketed (u ++ w) := by
  induction hu with
  | nil => exact hw
  | single he _ ih => exact .single he ih
  | @scope s inner u hinner _ _ ih =>
    have heq : .scopeStart s :: (inner ++ .scopeEnd s :: u) ++ w =
        .scopeStart s :: (inner ++ .scopeEnd s :: (u ++ w)) := by simp
    rw [heq]
    exact .scope hinner ih

end Bracketed

namespace Closing

variable {opened : List Span} {w : List Event}

theorem prepend {u : List Event} (hu : Bracketed u) (h : Closing opened w) :
    Closing opened (u ++ w) := by
  cases h with
  | done hw => exact .done (hu.append hw)
  | close hinner hw =>
    rw [← List.append_assoc]
    exact .close (hu.append hinner) hw

/-- A stream that closes a scope may start it, too. -/
theorem start {s : Span} (h : Closing (s :: opened) w) : Closing opened (.scopeStart s :: w) := by
  cases h with
  | @close _ _ inner w hinner hw =>
    have hscope : Bracketed (.scopeStart s :: (inner ++ [.scopeEnd s])) := .scope hinner .nil
    have heq : .scopeStart s :: (inner ++ .scopeEnd s :: w) =
        .scopeStart s :: (inner ++ [.scopeEnd s]) ++ w := by simp
    rw [heq]
    exact hw.prepend hscope

theorem ends (h : Closing opened w) : ∀ es : List Span,
    Closing (es ++ opened) (es.map .scopeEnd ++ w) := by
  intro es
  induction es with
  | nil => exact h
  | cons e es ih => exact .close .nil ih

end Closing
end Event

open Event

/-! ### Building -/

namespace Construction

/-- An event that is no bracket is taken in, and opens or closes nothing. -/
theorem push_of_not_bracket (c : Construction) {e : Event} (he : e.isBracket = false) :
    ∃ c', c.push e = .ok c' ∧ c'.opened = c.opened := by
  cases e with
  | definition span text scoping symbol =>
    rw [push]
    split
    · exact ⟨c, rfl, rfl⟩
    · exact ⟨_, rfl, rfl⟩
  | imported span text =>
    rw [push]
    split
    · exact ⟨c, rfl, rfl⟩
    · exact ⟨_, rfl, rfl⟩
  | reference span text symbol => exact ⟨_, rfl, rfl⟩
  | scopeStart | scopeEnd => cases he

/-- Opening a scope, new or not, puts one on top of those that are open. -/
theorem opened_openScope (c : Construction) (span : Span) :
    ∃ i, (c.openScope span).opened = i :: c.opened := by
  unfold openScope
  simp only
  split
  · exact ⟨_, rfl⟩
  · split
    · exact ⟨_, rfl⟩
    · exact ⟨_, rfl⟩

/-- **A bracketed stream is accepted in every state**, and the scopes that were open
before it are open after it. -/
theorem pushAll_bracketed {w : List Event} (hw : Bracketed w) :
    ∀ c : Construction, ∃ c', c.pushAll w = .ok c' ∧ c'.opened = c.opened := by
  induction hw with
  | nil => intro c; exact ⟨c, rfl, rfl⟩
  | single he _ ih =>
    intro c
    obtain ⟨d, hd, hopened⟩ := c.push_of_not_bracket he
    obtain ⟨c', hrun, hc'⟩ := ih d
    exact ⟨c', pushAll_cons_eq_ok.mpr ⟨d, hd, hrun⟩, hc'.trans hopened⟩
  | @scope s inner w _ _ ihinner ihw =>
    intro c
    obtain ⟨i, hi⟩ := c.opened_openScope s
    obtain ⟨d, hd, hopened⟩ := ihinner (c.openScope s)
    rw [hi] at hopened
    -- the scope that ends is the one that started
    have hpop : d.push (.scopeEnd s) = .ok { d with opened := c.opened } := by
      simp only [push, hopened]
    obtain ⟨c', hrun, hc'⟩ := ihw { d with opened := c.opened }
    refine ⟨c', pushAll_cons_eq_ok.mpr ⟨c.openScope s, rfl, ?_⟩, hc'⟩
    rw [pushAll_append hd]
    exact pushAll_cons_eq_ok.mpr ⟨_, hpop, hrun⟩

end Construction

/-- **A bracketed stream has a graph.** -/
theorem Graph.ofEvents_bracketed (top : Span) (symbols : SymbolTable) {w : List Event}
    (hw : Bracketed w) : ∃ g, Graph.ofEvents top symbols w = .ok g := by
  obtain ⟨c, hrun, hopened⟩ := Construction.pushAll_bracketed hw (.start top symbols)
  have hnone : c.opened = [] := hopened
  have hfinish : c.finish =
      .ok (c.uses.foldl (fun g r => g.withReference r.span r.name r.symbol) c.graph) := by
    simp [Construction.finish, hnone]
  rw [Graph.ofEvents, hrun]
  exact ⟨_, hfinish⟩

/-! ### Captures -/

namespace Capture

theorem toEvent?_not_bracket {c : Capture} {e : Event} (hrole : c.role ≠ .scope)
    (he : c.toEvent? = some e) : e.isBracket = false := by
  unfold toEvent? at he
  split at he
  · next h => exact absurd h hrole
  · cases he; rfl
  · cases he; rfl
  · cases he; rfl
  · cases he

/-- **The events of captures close the scopes that are open, and nothing else.** -/
theorem emit_closing : ∀ (cs : List Capture) (opened : List Span),
    Closing opened (emit opened cs) := by
  intro cs
  induction cs with
  | nil =>
    intro opened
    have hends := (Closing.done .nil).ends opened
    rwa [List.append_nil, List.append_nil] at hends
  | cons c cs ih =>
    intro opened
    -- first the event of the capture, then the ends before it
    have hevent : Closing (remaining c.span.start.byte opened) (c.toEvent?.toList ++
        emit (c.openedBy (remaining c.span.start.byte opened)) cs) := by
      have hrest := ih (c.openedBy (remaining c.span.start.byte opened))
      by_cases hrole : c.role = .scope
      · have hopen : c.openedBy (remaining c.span.start.byte opened) =
            c.span :: remaining c.span.start.byte opened := by simp [openedBy, hrole]
        have hstart : c.toEvent? = some (.scopeStart c.span) := by simp [toEvent?, hrole]
        rw [hopen] at hrest ⊢
        rw [hstart]
        exact hrest.start
      · have hopen : c.openedBy (remaining c.span.start.byte opened) =
            remaining c.span.start.byte opened := by simp [openedBy, hrole]
        rw [hopen] at hrest ⊢
        cases he : c.toEvent? with
        | none => exact hrest
        | some e => exact hrest.prepend (.single (toEvent?_not_bracket hrole he) .nil)
    have hends := hevent.ends (ended c.span.start.byte opened)
    rw [ended_append_remaining] at hends
    rw [emit, List.append_assoc]
    exact hends

/-- Scope ends apart, each event is that of a capture. -/
theorem mem_emit {e : Event} : ∀ {cs : List Capture} {opened : List Span},
    e ∈ emit opened cs → (∃ s, e = .scopeEnd s) ∨ ∃ c ∈ cs, c.toEvent? = some e := by
  have hend : ∀ {es : List Span}, e ∈ es.map .scopeEnd → ∃ s, e = .scopeEnd s := by
    intro es he
    obtain ⟨s, -, rfl⟩ := List.mem_map.mp he
    exact ⟨s, rfl⟩
  intro cs
  induction cs with
  | nil => intro opened he; exact Or.inl (hend he)
  | cons c cs ih =>
    intro opened he
    rw [emit, List.mem_append, List.mem_append] at he
    rcases he with (he | he) | he
    · exact Or.inl (hend he)
    · exact Or.inr ⟨c, List.mem_cons_self .., Option.mem_toList.mp he⟩
    · refine (ih he).imp_right ?_
      rintro ⟨d, hd, hde⟩
      exact ⟨d, List.mem_cons_of_mem _ hd, hde⟩

theorem exists_capture_of_scopeStart {captures : List Capture} {s : Span}
    (h : .scopeStart s ∈ events captures) : ∃ c ∈ captures, c.role = .scope ∧ c.span = s := by
  rcases mem_emit h with ⟨t, ht⟩ | ⟨c, hc, hce⟩
  · cases ht
  · refine ⟨c, mem_of_mem_inOrder hc, ?_⟩
    unfold toEvent? at hce
    split at hce <;> cases hce
    exact ⟨‹_›, rfl⟩

/-- **Captures never make a malformed stream.**  Whatever the captures are, crossing,
empty and repeated scopes included, their events are properly bracketed, and every scope
ends with the span it started with.  So they are accepted, whatever the root and the
symbol table, and if no scope is reversed, the graph can be resolved. -/
theorem events_bracketed (captures : List Capture) :
    Bracketed (events captures) ∧
      ∀ (top : Span) (symbols : SymbolTable),
        ∃ g, Graph.ofEvents top symbols (events captures) = .ok g ∧
          ((∀ c ∈ captures, c.role = .scope → c.span.start.byte ≤ c.span.stop.byte) →
            ∃ g' counts, g.resolve = .ok (g', counts)) := by
  have hbracketed : Bracketed (events captures) := by
    have hclosing : Closing [] (events captures) := emit_closing (inOrder captures) []
    cases hclosing with
    | done hw => exact hw
  refine ⟨hbracketed, fun top symbols => ?_⟩
  obtain ⟨g, hg⟩ := Graph.ofEvents_bracketed top symbols hbracketed
  refine ⟨g, hg, fun hordered => ?_⟩
  have hscopes : g.ScopesOrdered := by
    refine Graph.InnerScopes.ofEvents hg fun s hs => ?_
    obtain ⟨c, hc, hrole, rfl⟩ := exists_capture_of_scopeStart hs
    exact hordered c hc hrole
  obtain ⟨g', -, hresolve, -⟩ := (Graph.structured_ofEvents hg).resolve_eq_ok hscopes
  exact ⟨g', _, hresolve⟩

/-- Two scopes that cross, one that is empty and one captured twice, in a root that
holds none of them. -/
theorem events_bracketed_crossing :
    let span (a b : Nat) : Span := ⟨⟨a, 0, a⟩, ⟨b, 0, b⟩⟩
    let captures : List Capture :=
      [⟨.scope, none, span 3 8, ""⟩, ⟨.reference, none, span 4 6, "x"⟩, ⟨.scope, none, span 0 5, ""⟩,
        ⟨.scope, none, span 4 4, ""⟩, ⟨.definition .hoisted, none, span 4 5, "x"⟩,
        ⟨.scope, none, span 3 8, ""⟩]
    (∀ c ∈ captures, c.role = .scope → c.span.start.byte ≤ c.span.stop.byte) ∧
      Bracketed (events captures) ∧
      ∃ g g' counts, Graph.ofEvents (span 9 9) ⟨[]⟩ (events captures) = .ok g ∧
        g.resolve = .ok (g', counts) := by
  intro span captures
  have hordered : ∀ c ∈ captures, c.role = .scope → c.span.start.byte ≤ c.span.stop.byte := by decide
  obtain ⟨hbracketed, hall⟩ := events_bracketed captures
  obtain ⟨g, hg, hresolve⟩ := hall (span 9 9) ⟨[]⟩
  obtain ⟨g', counts, hg'⟩ := hresolve hordered
  exact ⟨hordered, hbracketed, g, g', counts, hg, hg'⟩

end Capture
end NameBinding
