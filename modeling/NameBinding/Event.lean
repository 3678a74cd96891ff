import NameBinding.Span

/-!
# Events

What a walk through a source text meets, in order: scopes that open and close,
definitions, imports and references.
-/

namespace NameBinding

/-- The scope a definition belongs to. -/
inductive Scoping where
  /-- The innermost open scope. -/
  | localScope
  /-- The scope around the innermost open one. -/
  | hoisted
  /-- The outermost scope. -/
  | globalScope
  deriving DecidableEq, Repr, Inhabited

/-- One element of the stream a graph is built from. -/
inductive Event where
  | scopeStart (span : Span)
  | scopeEnd (span : Span)
  | definition (span : Span) (text : String) (scoping : Scoping) (symbol : Option String)
  | imported (span : Span) (text : String)
  | reference (span : Span) (text : String) (symbol : Option String)
  deriving DecidableEq, Repr

/-- The source text an event is about. -/
def Event.span : Event → Span
  | .scopeStart s | .scopeEnd s | .definition s _ _ _ | .imported s _ | .reference s _ _ => s

end NameBinding
