import NameBinding.Event
import NameBinding.Graph.Scope

/-!
# Building a graph from events

A `Construction` is a graph under way: scopes open and close on a stack,
definitions and imports are declared at once, and references wait until the
stream ends, because the name of a definition is not also a use of it.

* `Construction.push` — one event; only a scope end without an open scope fails,
  and then nothing changes.
* `Construction.finish` — the graph, unless scopes are still open.
* `Graph.ofEvents` — a whole stream.
-/

namespace NameBinding

/-- A reference that is not a node yet. -/
structure PendingReference where
  span : Span
  name : String
  symbol : Option SymbolIndex
  deriving DecidableEq, Repr

/-- A graph under construction. -/
structure Construction where
  graph : Graph
  /-- How symbol classes are numbered. -/
  symbols : SymbolTable
  /-- The open scopes, innermost first. -/
  opened : List Nat
  /-- The spans that already declare a name. -/
  bound : List Span
  /-- The references met so far, in order. -/
  pending : List PendingReference
  deriving DecidableEq, Repr

namespace Construction

/-- The start of a graph whose outermost scope has the given span. -/
def start (root : Span) (symbols : SymbolTable) : Construction :=
  ⟨.ofRoot root, symbols, [], [], []⟩

/-- The innermost open scope. -/
def topScope (c : Construction) : Nat := c.opened.head?.getD Graph.root

/-- The innermost open scope that contains a span, or else the root. -/
def enclosingOpen (c : Construction) (span : Span) : Nat :=
  (c.opened.find? fun i => (c.graph.node? i).any (·.span.contains span)).getD Graph.root

/-- The scope a definition is declared in. -/
def homeOf (c : Construction) (span : Span) : Scoping → Nat
  | .localScope => c.enclosingOpen span
  | .hoisted => (c.graph.outerScope? (c.enclosingOpen span)).getD Graph.root
  | .globalScope => Graph.root

/-- The position of a symbol class; an unknown class is dropped. -/
def classify (c : Construction) (symbol : Option String) : Option SymbolIndex :=
  symbol.bind c.symbols.indexOf?

/-- Open a scope. One span is one scope, however often it is opened: the parent
itself, or a child it already has, is opened again. -/
def openScope (c : Construction) (span : Span) : Construction :=
  let outer := c.enclosingOpen span
  if (c.graph.node? outer).any (·.span == span) then { c with opened := outer :: c.opened }
  else
    match c.graph.scopeWithSpan? outer span with
    | some child => { c with opened := child :: c.opened }
    | none =>
        { c with
          graph := c.graph.withScope span outer
          opened := c.graph.order :: c.opened }

/-- Take in one event. -/
def push (c : Construction) : Event → Except StreamFlaw Construction
  | .scopeStart span => .ok (c.openScope span)
  | .scopeEnd span =>
      match c.opened with
      | [] => .error (.endWithoutStart span)
      | _ :: rest => .ok { c with opened := rest }
  | .definition span text scoping symbol =>
      if span ∈ c.bound then .ok c
      else
        .ok { c with
          graph := c.graph.withDefinition span text (c.classify symbol) (c.homeOf span scoping)
          bound := span :: c.bound }
  | .imported span text =>
      if span ∈ c.bound then .ok c
      else
        .ok { c with
          graph := c.graph.withImport span text (c.enclosingOpen span)
          bound := span :: c.bound }
  | .reference span text symbol =>
      .ok { c with pending := c.pending ++ [⟨span, text, c.classify symbol⟩] }

/-- The references that are uses: those whose span declares no name. -/
def uses (c : Construction) : List PendingReference :=
  c.pending.filter fun r => r.span ∉ c.bound

/-- The number of references that only repeat the name of a declaration. -/
def dropped (c : Construction) : Nat := c.pending.length - c.uses.length

/-- The finished graph. -/
def finish (c : Construction) : Except StreamFlaw Graph :=
  if c.opened.isEmpty then
    .ok (c.uses.foldl (fun g r => g.withReference r.span r.name r.symbol) c.graph)
  else .error (.stillOpen c.opened.length)

/-- Take in a whole stream. -/
def pushAll (c : Construction) (events : List Event) : Except StreamFlaw Construction :=
  events.foldlM push c

end Construction

/-- The graph of a stream of events. -/
def Graph.ofEvents (root : Span) (symbols : SymbolTable) (events : List Event) :
    Except StreamFlaw Graph := do
  (← (Construction.start root symbols).pushAll events).finish

end NameBinding
