import NameBinding.Graph.Binding
import NameBinding.Graph.Scope

/-!
# Resolving references

A reference is looked up from the innermost scope around it outward. The first
scope that declares its name decides: inner declarations hide outer ones. Within
that scope the last declaration that starts at or before the reference is meant,
or, if all of them follow it, the first; two that start together are told apart by
their position.

* `Graph.eligibleIn` — the declarations of a scope a reference could mean.
* `Graph.choose?` — the one it does mean.
* `Graph.bindingFor`, `Graph.allBindings` — what references denote.
* `Graph.resolve` — the graph with all of it recorded.
-/

namespace NameBinding
namespace Graph

/-- Can a reference that expects the class `expected` mean a definition of the class
`actual`? Classes exclude each other only if both are known and lie in different
name spaces. -/
def compatible : Option SymbolIndex → Option SymbolIndex → Bool
  | some expected, some actual => expected.sameSpace actual
  | _, _ => true

/-- Could a reference to `name` that expects the class `symbol` mean the node? -/
def couldMean (g : Graph) (scope : Nat) (name : String) (symbol : Option SymbolIndex) (i : Nat) :
    Except Damage Bool :=
  match g.node? i with
  | some (.definition _ n s) => .ok (n == name && compatible symbol s)
  | some (.imported _ n) => .ok (n == name)
  | some other => .error (.strayDeclaration other.kind i scope)
  | none => .error (.missingDeclaration scope i)

/-- The declarations of a scope that a reference could mean, by position. -/
def eligibleIn (g : Graph) (scope : Nat) (name : String) (symbol : Option SymbolIndex) :
    Except Damage (List Nat) :=
  (g.bindingsIn scope).filterM (g.couldMean scope name symbol)

/-- Where a declaration starts. -/
def startOf (g : Graph) (i : Nat) : Nat := (g.spanOf i).start.byte

/-- Of several candidates the one meant by a reference that starts at `start`. -/
def choose? (g : Graph) (start : Nat) (candidates : List Nat) : Option Nat :=
  let keyed := candidates.map fun i => (g.startOf i, i)
  let later (a b : Nat × Nat) : Bool := b.1 < a.1 || (a.1 == b.1 && a.2 ≤ b.2)
  match leastBy? later (keyed.filter (·.1 ≤ start)) with
  | some (_, i) => some i
  | none => (leastBy? smaller keyed).map Prod.snd

/-- The binding to a chosen declaration. -/
def bindingTo (g : Graph) (i : Nat) : Binding :=
  if (g.node? i).any Node.isImport then .imported i else .definition i

/-- Look a reference up from `scope` outward, through at most `n` scopes. -/
def lookup (g : Graph) (span : Span) (name : String) (symbol : Option SymbolIndex) :
    Nat → Nat → Except Damage (Option Binding)
  | 0, _ => .error (.endlessChain name span)
  | n + 1, scope => do
      match g.choose? span.start.byte (← g.eligibleIn scope name symbol) with
      | some i => return some (g.bindingTo i)
      | none =>
          match ← g.parent scope with
          | some outer => lookup g span name symbol n outer
          | none => return none

/-- What a reference denotes, if anything. -/
def bindingFor (g : Graph) (i : Nat) : Except Error (Option Binding) :=
  match g.node? i with
  | some (.reference span name symbol) => do
      let scope ← Error.ofFault (g.smallestScope span)
      (g.lookup span name symbol g.order scope).mapError .damaged
  | _ => .error (.damaged (.notReference i))

/-- What the references denote, one after the other; those that denote nothing are
left out. -/
def resolveEach (g : Graph) : List Nat → Except Error (List BoundReference)
  | [] => .ok []
  | i :: is => do
      match ← g.bindingFor i with
      | some binding => return ⟨i, binding⟩ :: (← resolveEach g is)
      | none => resolveEach g is

/-- What all references of a graph denote. -/
def allBindings (g : Graph) : Except Error (List BoundReference) := g.resolveEach g.references

/-- The graph with every reference bound to what it denotes, and the outcome. -/
def resolve (g : Graph) : Except Error (Graph × BindingCounts) := do
  let (g', counts) := g.bindAll (← g.allBindings)
  return (g', ← Error.ofFault counts)

end Graph
end NameBinding
