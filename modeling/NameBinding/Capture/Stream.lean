import NameBinding.Capture.Basic

/-!
# From captures to events

Captures come in any order and say only where a scope is. They are sorted so that
what encloses comes before what it encloses, and scope ends are put in so that the
events are balanced.

* `Capture.kept` — without ignored pieces and the references on top of them.
* `Capture.inOrder` — by start, larger first, then by role.
* `Capture.events` — the event stream.
-/

namespace NameBinding
namespace Capture

/-- The spans that are never a use. -/
def ignoredSpans (captures : List Capture) : List Span :=
  (captures.filter (·.role == .ignored)).map Capture.span

/-- The captures that become events. -/
def kept (captures : List Capture) : List Capture :=
  captures.filter fun c =>
    match c.role with
    | .ignored => false
    | .reference => c.span ∉ ignoredSpans captures
    | _ => true

/-- Captures are taken by start; of those that start together the longer one comes
first, and of those with one span the role decides. -/
def precedes (a b : Capture) : Bool :=
  ((compare a.span.start.byte b.span.start.byte).then
    ((compare b.span.stop.byte a.span.stop.byte).then (compare a.role.rank b.role.rank))).isLE

/-- Do the two captures open one and the same scope? -/
def sameScope (a b : Capture) : Bool :=
  a.role == .scope && b.role == .scope && a.span == b.span

/-- The captures after `last`, of which those that reopen the scope of the one kept
before them are dropped. -/
def dropReopened (last : Capture) : List Capture → List Capture
  | [] => []
  | c :: cs => if sameScope last c then dropReopened last cs else c :: dropReopened c cs

/-- The captures in the order of their events. -/
def inOrder (captures : List Capture) : List Capture :=
  match (kept captures).mergeSort precedes with
  | [] => []
  | c :: cs => c :: dropReopened c cs

/-- The event of a capture. -/
def toEvent? (c : Capture) : Option Event :=
  match c.role with
  | .scope => some (.scopeStart c.span)
  | .definition scoping => some (.definition c.span c.text scoping c.symbol)
  | .imported => some (.imported c.span (importedName c.text))
  | .reference => some (.reference c.span c.text c.symbol)
  | .ignored => none

/-- The open scopes, innermost first, that have ended at `byte`. -/
def ended (byte : Nat) (opened : List Span) : List Span :=
  opened.takeWhile (·.stop.byte ≤ byte)

/-- The open scopes, innermost first, that remain at `byte`. -/
def remaining (byte : Nat) (opened : List Span) : List Span :=
  opened.dropWhile (·.stop.byte ≤ byte)

/-- The open scopes after a capture. -/
def openedBy (c : Capture) (opened : List Span) : List Span :=
  if c.role == .scope then c.span :: opened else opened

/-- The events of ordered captures, with the open scopes given innermost first. -/
def emit (opened : List Span) : List Capture → List Event
  | [] => opened.map .scopeEnd
  | c :: cs =>
      let byte := c.span.start.byte
      (ended byte opened).map .scopeEnd ++ c.toEvent?.toList ++
        emit (c.openedBy (remaining byte opened)) cs

/-- The balanced stream of events of some captures. -/
def events (captures : List Capture) : List Event := emit [] (inOrder captures)

end Capture
end NameBinding
