import NameBinding.Proofs.Bracketing

/-!
# Which streams are accepted

Whether a stream has a graph is a matter of counting: scope ends must never outnumber the
scope starts before them, and in the end there must be as many of both.  Spans do not
matter, nor does it matter that scopes which are opened again are no new nodes: every start
puts one scope on the stack, every end takes one off, and nothing else touches it.

An event is refused only if it is a scope end while no scope is open, and a refusal leaves
no trace.  So a stream whose refused events are skipped leads where it leads without them.

## Main definitions

* `Event.starts`, `Event.ends`, `Event.Balanced` — balanced streams.
* `StreamFlaw.FoundIn` — what is wrong with a stream that is not balanced.
* `Construction.pushInPlace` — an event taken in by changing one part after the other.
* `Construction.accepted` — the events that are not refused.

## Main results

* `Construction.exists_pushAll_iff` — a stream is taken in if its ends are covered.
* `Construction.pushAll_accepted` — skipping refused events is leaving them out.
* `Graph.ofEvents_iff_balanced` — **exactly balanced streams have a graph, and a refusal
  changes nothing.**
-/

namespace NameBinding
namespace Event

def isStart : Event → Bool
  | .scopeStart _ => true
  | _ => false

def isEnd : Event → Bool
  | .scopeEnd _ => true
  | _ => false

/-- How many scopes start. -/
def starts (es : List Event) : Nat := es.countP isStart

/-- How many scopes end. -/
def ends (es : List Event) : Nat := es.countP isEnd

/-- With `depth` scopes open at first, there is always one to end where one ends. -/
def EndsCovered (depth : Nat) (es : List Event) : Prop :=
  ∀ k ≤ es.length, ends (es.take k) ≤ depth + starts (es.take k)

/-- No first part of the stream has more ends than starts, and the whole stream has as
many of both. -/
def Balanced (es : List Event) : Prop :=
  (∀ k ≤ es.length, ends (es.take k) ≤ starts (es.take k)) ∧ starts es = ends es

instance (es : List Event) : Decidable (Balanced es) := inferInstanceAs (Decidable (_ ∧ _))

theorem starts_cons (e : Event) (es : List Event) : starts (e :: es) = starts [e] + starts es := by
  simp only [starts, List.countP_cons, List.countP_nil]
  omega

theorem ends_cons (e : Event) (es : List Event) : ends (e :: es) = ends [e] + ends es := by
  simp only [ends, List.countP_cons, List.countP_nil]
  omega

theorem balanced_iff {es : List Event} : Balanced es ↔ EndsCovered 0 es ∧ starts es = ends es := by
  simp only [Balanced, EndsCovered, Nat.zero_add]

theorem endsCovered_cons {depth : Nat} {e : Event} {es : List Event} :
    EndsCovered depth (e :: es) ↔
      ends [e] ≤ depth + starts [e] ∧ EndsCovered (depth + starts [e] - ends [e]) es := by
  constructor
  · intro h
    have hfirst := h 1 (by simp)
    rw [List.take_succ_cons, List.take_zero] at hfirst
    refine ⟨hfirst, fun k hk => ?_⟩
    have hnext := h (k + 1) (by simp [hk])
    rw [List.take_succ_cons, ends_cons, starts_cons] at hnext
    omega
  · rintro ⟨hfirst, h⟩ k hk
    cases k with
    | zero => simp [ends]
    | succ k =>
      have hrest := h k (by simpa using hk)
      rw [List.take_succ_cons, ends_cons, starts_cons]
      omega

end Event

open Event

namespace Construction

/-! ### One event -/

variable {c c' : Construction} {e : Event}

/-- **Only a scope end without an open scope is refused.** -/
theorem push_eq_error_iff {flaw : StreamFlaw} : c.push e = .error flaw ↔
    c.opened = [] ∧ ∃ span, e = .scopeEnd span ∧ flaw = .endWithoutStart span := by
  constructor
  · intro h
    cases he : e.isBracket with
    | false =>
      obtain ⟨d, hd, -⟩ := c.push_of_not_bracket he
      rw [hd] at h
      cases h
    | true =>
      cases e with
      | scopeStart => cases h
      | scopeEnd span =>
        rw [push] at h
        split at h
        · next hnone =>
          cases h
          exact ⟨hnone, span, rfl, rfl⟩
        · cases h
      | definition | imported | reference => cases he
  · rintro ⟨hnone, span, rfl, rfl⟩
    simp only [push, hnone]

/-- A scope start opens one scope, a scope end closes one, and no other event opens or
closes any. -/
theorem length_opened_push (h : c.push e = .ok c') :
    c'.opened.length + ends [e] = c.opened.length + starts [e] := by
  cases he : e.isBracket with
  | false =>
    obtain ⟨d, hd, hopened⟩ := c.push_of_not_bracket he
    rw [hd] at h
    cases h
    have hcounts : ends [e] = 0 ∧ starts [e] = 0 := by
      cases e with
      | scopeStart | scopeEnd => cases he
      | definition | imported | reference => exact ⟨rfl, rfl⟩
    rw [hopened, hcounts.1, hcounts.2]
  | true =>
    cases e with
    | scopeStart span =>
      cases h
      obtain ⟨i, hi⟩ := c.opened_openScope span
      rw [hi]
      rfl
    | scopeEnd span =>
      rw [push] at h
      split at h <;> cases h
      next hopened =>
      rw [hopened]
      rfl
    | definition | imported | reference => cases he

/-- An event is taken in if there is a scope to end where it ends one. -/
theorem exists_push_iff :
    (∃ c', c.push e = .ok c') ↔ ends [e] ≤ c.opened.length + starts [e] := by
  constructor
  · rintro ⟨c', h⟩
    have hlength := length_opened_push h
    omega
  · intro hle
    cases h : c.push e with
    | ok c' => exact ⟨c', rfl⟩
    | error flaw =>
      obtain ⟨hnone, span, rfl, -⟩ := push_eq_error_iff.mp h
      have hcounts : ends [scopeEnd span] = 1 ∧ starts [scopeEnd span] = 0 := ⟨rfl, rfl⟩
      rw [hnone, hcounts.1, hcounts.2] at hle
      cases hle

/-- After an event that is taken in, the others have the scopes open then to end. -/
theorem endsCovered_push {es : List Event} (h : c.push e = .ok c') :
    EndsCovered c.opened.length (e :: es) ↔ EndsCovered c'.opened.length es := by
  have hlength := length_opened_push h
  have hdepth : c.opened.length + starts [e] - ends [e] = c'.opened.length := by omega
  rw [endsCovered_cons, hdepth]
  exact and_iff_right (by omega)

/-! ### Changing a construction in place -/

/-- Reserve a span for a declaration.  Was it free? -/
def reserve (span : Span) : EStateM StreamFlaw Construction Bool := do
  let free := decide (span ∉ (← get).bound)
  modify fun c => { c with bound := c.bound.insert span }
  return free

/-- Take in one event by changing one part after the other.  What was changed before a
refusal is not changed back. -/
def pushInPlace : Event → EStateM StreamFlaw Construction Unit
  | .scopeStart span => modify (·.openScope span)
  | .scopeEnd span => do
      let top := (← get).opened.head?
      modify fun c => { c with opened := c.opened.tail }
      if top.isNone then throw (.endWithoutStart span)
  | .definition span text scoping symbol => do
      if ← reserve span then
        modify fun c => { c with
          graph := c.graph.withDefinition span text (c.classify symbol) (c.homeOf span scoping) }
  | .imported span text => do
      if ← reserve span then
        modify fun c => { c with graph := c.graph.withImport span text (c.enclosingOpen span) }
  | .reference span text symbol =>
      modify fun c => { c with pending := c.pending ++ [⟨span, text, c.classify symbol⟩] }

/-- A state that changes only if there is a new one. -/
def outcome (c : Construction) : Except StreamFlaw Construction →
    EStateM.Result StreamFlaw Construction Unit
  | .ok c' => .ok () c'
  | .error flaw => .error flaw c

/-- What follows is done only when a span is reserved for the first time. -/
theorem run_reserve (c : Construction) (span : Span) (declare : Construction → Construction) :
    (do if ← reserve span then modify declare : EStateM StreamFlaw Construction Unit) c =
      if span ∈ c.bound then .ok () c
      else .ok () (declare { c with bound := span :: c.bound }) := by
  have hreserve : reserve span c =
      .ok (decide (span ∉ c.bound)) { c with bound := c.bound.insert span } := rfl
  simp only [bind, EStateM.bind, hreserve]
  by_cases hseen : span ∈ c.bound
  · rw [if_pos hseen, List.insert_of_mem hseen, decide_eq_false (not_not_intro hseen)]
    rfl
  · rw [if_neg hseen, List.insert_of_not_mem hseen, decide_eq_true hseen]
    rfl

/-- **A refused event leaves no trace**, and one that is not refused changes everything it
is to change. -/
theorem pushInPlace_eq (c : Construction) (e : Event) : pushInPlace e c = c.outcome (c.push e) := by
  cases e with
  | scopeStart span => rfl
  | scopeEnd span =>
    -- the scope is taken off before it is known that there is one
    obtain ⟨graph, symbols, opened, bound, pending⟩ := c
    cases opened with
    | nil => rfl
    | cons i opened => rfl
  | definition span text scoping symbol =>
    rw [pushInPlace, run_reserve, push]
    split <;> rfl
  | imported span text =>
    rw [pushInPlace, run_reserve, push]
    split <;> rfl
  | reference span text symbol => rfl

/-! ### A stream -/

theorem pushAll_cons (c : Construction) (e : Event) (es : List Event) :
    c.pushAll (e :: es) = (c.push e).bind (·.pushAll es) := by
  rw [pushAll, List.foldlM_cons]
  rfl

/-- An accepted stream leaves as many more scopes open as it has more starts than ends. -/
theorem length_opened_pushAll {es : List Event} (h : c.pushAll es = .ok c') :
    c'.opened.length + ends es = c.opened.length + starts es := by
  induction es generalizing c with
  | nil =>
    cases h
    rfl
  | cons e es ih =>
    obtain ⟨d, hpush, hrest⟩ := pushAll_cons_eq_ok.mp h
    have hfirst := length_opened_push hpush
    have hlast := ih hrest
    rw [ends_cons, starts_cons]
    omega

/-- **A stream is taken in if each of its ends has a scope to end.** -/
theorem exists_pushAll_iff {es : List Event} :
    (∃ c', c.pushAll es = .ok c') ↔ EndsCovered c.opened.length es := by
  induction es generalizing c with
  | nil =>
    refine ⟨fun _ k _ => ?_, fun _ => ⟨c, rfl⟩⟩
    simp [ends]
  | cons e es ih =>
    constructor
    · rintro ⟨c', h⟩
      obtain ⟨d, hpush, hrest⟩ := pushAll_cons_eq_ok.mp h
      exact (endsCovered_push hpush).mpr (ih.mp ⟨c', hrest⟩)
    · intro hcovered
      obtain ⟨d, hpush⟩ := exists_push_iff.mpr (endsCovered_cons.mp hcovered).1
      obtain ⟨c', hrest⟩ := ih.mpr ((endsCovered_push hpush).mp hcovered)
      exact ⟨c', pushAll_cons_eq_ok.mpr ⟨d, hpush, hrest⟩⟩

/-- A stream is refused at a scope end that comes when all scopes are closed. -/
theorem pushAll_eq_error_iff {es : List Event} {flaw : StreamFlaw} :
    c.pushAll es = .error flaw ↔ ∃ before span after, es = before ++ .scopeEnd span :: after ∧
      flaw = .endWithoutStart span ∧ EndsCovered c.opened.length before ∧
      ends before = c.opened.length + starts before := by
  constructor
  · intro h
    induction es generalizing c with
    | nil => cases h
    | cons e es ih =>
      rw [pushAll_cons] at h
      cases hpush : c.push e with
      | error flaw' =>
        rw [hpush] at h
        cases h
        obtain ⟨hnone, span, rfl, rfl⟩ := push_eq_error_iff.mp hpush
        exact ⟨[], span, es, rfl, rfl, exists_pushAll_iff.mp ⟨c, rfl⟩, by rw [hnone]; rfl⟩
      | ok d =>
        rw [hpush] at h
        obtain ⟨before, span, after, rfl, hflaw, hcovered, hcounts⟩ := ih h
        have hlength := length_opened_push hpush
        refine ⟨e :: before, span, after, rfl, hflaw, (endsCovered_push hpush).mpr hcovered, ?_⟩
        rw [ends_cons, starts_cons]
        omega
  · rintro ⟨before, span, after, rfl, rfl, hcovered, hcounts⟩
    obtain ⟨d, hrun⟩ := exists_pushAll_iff.mpr hcovered
    have hlength := length_opened_pushAll hrun
    have hnone : d.opened = [] := List.length_eq_zero_iff.mp (by omega)
    rw [pushAll_append hrun, pushAll_cons,
      push_eq_error_iff.mpr ⟨hnone, span, rfl, rfl⟩]
    rfl

/-! ### Skipping what is refused -/

/-- The events of a stream that are not refused when refused ones are skipped. -/
def accepted (c : Construction) : List Event → List Event
  | [] => []
  | e :: es =>
      match c.push e with
      | .ok c' => e :: c'.accepted es
      | .error _ => c.accepted es

/-- **Skipping refused events is leaving them out.** -/
theorem pushAll_accepted (c : Construction) (es : List Event) :
    c.pushAll (c.accepted es) = .ok (c.offerAll es) := by
  induction es generalizing c with
  | nil => rfl
  | cons e es ih =>
    rw [accepted, offerAll, List.foldl_cons, ← offerAll, offer]
    cases hpush : c.push e with
    | ok d => exact pushAll_cons_eq_ok.mpr ⟨d, hpush, ih d⟩
    | error flaw => exact ih c

/-- No scope start is refused. -/
theorem starts_accepted (c : Construction) (es : List Event) :
    starts (c.accepted es) = starts es := by
  induction es generalizing c with
  | nil => rfl
  | cons e es ih =>
    rw [accepted]
    cases hpush : c.push e with
    | ok d =>
      simp only
      rw [starts_cons, ih d, ← starts_cons]
    | error flaw =>
      obtain ⟨-, span, rfl, -⟩ := push_eq_error_iff.mp hpush
      exact ih c

/-! ### The end of a stream -/

theorem exists_finish_iff : (∃ g, c.finish = .ok g) ↔ c.opened = [] := by
  unfold finish
  split
  · next hnone => exact ⟨fun _ => List.isEmpty_iff.mp hnone, fun _ => ⟨_, rfl⟩⟩
  · next hsome =>
    constructor
    · rintro ⟨g, hg⟩
      cases hg
    · intro hnone
      exact absurd (List.isEmpty_iff.mpr hnone) hsome

theorem finish_eq_error_iff {flaw : StreamFlaw} :
    c.finish = .error flaw ↔ ∃ count, flaw = .stillOpen count ∧ 0 < count ∧
      c.opened.length = count := by
  unfold finish
  split
  · next hnone =>
    rw [List.isEmpty_iff.mp hnone]
    constructor
    · intro h
      cases h
    · rintro ⟨count, -, hpos, hlength⟩
      rw [← hlength] at hpos
      cases hpos
  · next hsome =>
    rw [List.isEmpty_iff] at hsome
    constructor
    · intro h
      cases h
      exact ⟨_, rfl, List.length_pos_iff.mpr hsome, rfl⟩
    · rintro ⟨count, rfl, -, rfl⟩
      rfl

end Construction

/-! ### Graphs -/

/-- What is wrong with a stream: a scope end that comes when all scopes are closed, or
else scopes that are never closed. -/
def StreamFlaw.FoundIn (es : List Event) : StreamFlaw → Prop
  | .endWithoutStart span =>
      ∃ before after, es = before ++ .scopeEnd span :: after ∧ Balanced before
  | .stillOpen count => 0 < count ∧ EndsCovered 0 es ∧ starts es = ends es + count

namespace Graph

variable {top : Span} {symbols : SymbolTable} {events : List Event}

theorem exists_ofEvents_iff :
    (∃ g, Graph.ofEvents top symbols events = .ok g) ↔ Balanced events := by
  have hstart : (Construction.start top symbols).opened.length = 0 := rfl
  rw [balanced_iff]
  constructor
  · rintro ⟨g, hg⟩
    obtain ⟨c, hrun, hfinish⟩ := Graph.ofEvents_eq_ok hg
    have hlength := Construction.length_opened_pushAll hrun
    rw [Construction.exists_finish_iff.mp ⟨g, hfinish⟩, hstart, List.length_nil] at hlength
    exact ⟨Construction.exists_pushAll_iff.mp ⟨c, hrun⟩, by omega⟩
  · rintro ⟨hcovered, htotals⟩
    obtain ⟨c, hrun⟩ := (Construction.exists_pushAll_iff (c := .start top symbols)).mpr hcovered
    have hlength := Construction.length_opened_pushAll hrun
    have hnone : c.opened = [] := List.length_eq_zero_iff.mp (by omega)
    obtain ⟨g, hg⟩ := Construction.exists_finish_iff.mpr hnone
    exact ⟨g, by rw [Graph.ofEvents, hrun]; exact hg⟩

/-- A stream is refused at one of its events or at its end. -/
theorem ofEvents_eq_error {flaw : StreamFlaw} :
    Graph.ofEvents top symbols events = .error flaw ↔
      (Construction.start top symbols).pushAll events = .error flaw ∨
        ∃ c, (Construction.start top symbols).pushAll events = .ok c ∧ c.finish = .error flaw := by
  rw [Graph.ofEvents]
  cases (Construction.start top symbols).pushAll events with
  | error flaw' => simp [bind, Except.bind]
  | ok c => simp [bind, Except.bind]

/-- **The error of a stream says what is wrong with it.** -/
theorem ofEvents_eq_error_iff {flaw : StreamFlaw} :
    Graph.ofEvents top symbols events = .error flaw ↔ flaw.FoundIn events := by
  have hstart : (Construction.start top symbols).opened.length = 0 := rfl
  rw [ofEvents_eq_error, Construction.pushAll_eq_error_iff, hstart]
  cases flaw with
  | endWithoutStart span =>
    simp only [StreamFlaw.FoundIn, balanced_iff, Nat.zero_add]
    constructor
    · rintro (⟨before, span', after, hes, hflaw, hcovered, hcounts⟩ | ⟨c, -, hfinish⟩)
      · cases hflaw
        exact ⟨before, after, hes, hcovered, hcounts.symm⟩
      · obtain ⟨count, hflaw, -⟩ := Construction.finish_eq_error_iff.mp hfinish
        cases hflaw
    · rintro ⟨before, after, hes, hcovered, hcounts⟩
      exact Or.inl ⟨before, span, after, hes, rfl, hcovered, hcounts.symm⟩
  | stillOpen count =>
    constructor
    · rintro (⟨before, span, after, -, hflaw, -⟩ | ⟨c, hrun, hfinish⟩)
      · cases hflaw
      · obtain ⟨count', hflaw, hpos, hcount⟩ := Construction.finish_eq_error_iff.mp hfinish
        cases hflaw
        have hlength := Construction.length_opened_pushAll hrun
        exact ⟨hpos, Construction.exists_pushAll_iff.mp ⟨c, hrun⟩, by omega⟩
    · rintro ⟨hpos, hcovered, hcounts⟩
      obtain ⟨c, hrun⟩ := (Construction.exists_pushAll_iff (c := .start top symbols)).mpr hcovered
      have hlength := Construction.length_opened_pushAll hrun
      exact Or.inr ⟨c, hrun,
        Construction.finish_eq_error_iff.mpr ⟨count, rfl, hpos, by omega⟩⟩

/-- **Exactly balanced streams have a graph, and a refusal changes nothing.**  Whatever the
spans, a stream that is not balanced is refused with what is wrong with it.  One event is
refused only if it ends a scope while none is open, and then the construction stays what
it was; so skipping refused events is leaving them out, and as many scopes are open then as
were started and not ended. -/
theorem ofEvents_iff_balanced (top : Span) (symbols : SymbolTable) (events : List Event) :
    ((∃ g, Graph.ofEvents top symbols events = .ok g) ↔ Balanced events) ∧
      ((∃ flaw, Graph.ofEvents top symbols events = .error flaw) ↔ ¬ Balanced events) ∧
      (∀ flaw, Graph.ofEvents top symbols events = .error flaw ↔ flaw.FoundIn events) ∧
      (∀ (c : Construction) (e : Event) (flaw : StreamFlaw), c.push e = .error flaw ↔
        c.opened = [] ∧ ∃ span, e = .scopeEnd span ∧ flaw = .endWithoutStart span) ∧
      (∀ (c : Construction) (e : Event),
        Construction.pushInPlace e c = c.outcome (c.push e)) ∧
      ∀ c : Construction, c.pushAll (c.accepted events) = .ok (c.offerAll events) ∧
        (c.offerAll events).opened.length + ends (c.accepted events) =
          c.opened.length + starts events := by
  refine ⟨exists_ofEvents_iff, ?_, fun _ => ofEvents_eq_error_iff,
    fun _ _ _ => Construction.push_eq_error_iff, Construction.pushInPlace_eq, fun c => ?_⟩
  · rw [← @exists_ofEvents_iff top symbols events]
    cases Graph.ofEvents top symbols events with
    | ok g => simp
    | error flaw => simp
  · have hrun := c.pushAll_accepted events
    have hlength := Construction.length_opened_pushAll hrun
    rw [c.starts_accepted events] at hlength
    exact ⟨hrun, hlength⟩

/-- Spans do not matter, but the order of starts and ends does. -/
example : Balanced [.scopeStart ⟨⟨2, 0, 2⟩, ⟨8, 0, 8⟩⟩, .scopeEnd .zero] ∧
    ¬ Balanced [.scopeEnd .zero, .scopeStart .zero] := by decide

end Graph
end NameBinding
