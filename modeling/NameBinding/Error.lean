import NameBinding.Span
import NameBinding.Symbol

/-!
# Errors

What can go wrong while a source text is read, its graph built and its
references resolved. Each error is a cause; its wording is a function of it.

* `StreamFlaw` — scope starts and ends that do not pair up.
* `Damage` — a graph that is not a scope tree with declarations.
* `FileProblem` — a file that cannot be read or written.
* `Error` — all of these, and the faults of bounded arithmetic.
-/

namespace NameBinding

/-- Scope starts and ends that do not pair up. -/
inductive StreamFlaw where
  /-- A scope end while no scope is open. -/
  | endWithoutStart (span : Span)
  /-- Scopes still open after the last event. -/
  | stillOpen (count : Nat)
  deriving DecidableEq, Repr

def StreamFlaw.message : StreamFlaw → String
  | .endWithoutStart span => s!"scope end at {span.text} with no open scope"
  | .stillOpen count => s!"{count} scope(s) still open at end of stream"

/-- A node that is not what its place in the graph asks for. -/
inductive Damage where
  | notReference (node : Nat)
  | notScope (node : Nat) (kind : String)
  | danglingScope (node : Nat)
  | detachedScope (scope : Nat)
  | parentNotScope (scope parent : Nat)
  | severalParents (scope count : Nat)
  | endlessChain (name : String) (span : Span)
  | strayDeclaration (kind : String) (node scope : Nat)
  | missingDeclaration (scope node : Nat)
  deriving DecidableEq, Repr

def Damage.message : Damage → String
  | .notReference node => s!"node {node} is not a reference"
  | .notScope node kind => s!"node {node} is a {kind}, not a scope"
  | .danglingScope node => s!"dangling scope reference to node {node}"
  | .detachedScope scope => s!"scope {scope} is detached from the root"
  | .parentNotScope scope parent => s!"scope {scope} nests inside non-scope node {parent}"
  | .severalParents scope count => s!"scope {scope} has {count} parents"
  | .endlessChain name span =>
      s!"scope chain of reference `{name}` at {span.text} does not reach the root"
  | .strayDeclaration kind node scope => s!"{kind} node {node} is declared in scope {scope}"
  | .missingDeclaration scope node => s!"scope {scope} declares missing node {node}"

/-- A file that cannot be read or written. -/
inductive FileProblem where
  | notFound
  | notDirectory
  | isDirectory
  | notText
  deriving DecidableEq, Repr

def FileProblem.message : FileProblem → String
  | .notFound => "No such file or directory (os error 2)"
  | .notDirectory => "Not a directory (os error 20)"
  | .isDirectory => "Is a directory (os error 21)"
  | .notText => "stream did not contain valid UTF-8"

/-- Why a source text could not be analysed. -/
inductive Error where
  | malformedStream (flaw : StreamFlaw)
  | unknownSymbol (id : SymbolIndex)
  | damaged (damage : Damage)
  /-- The language found no structure in the text. -/
  | noTree (language : String)
  /-- The query file of a language cannot be read. -/
  | unreadableQuery (path : String) (problem : FileProblem)
  /-- No language of that name, or none for that file. -/
  | unsupportedLanguage (what : String)
  | file (problem : FileProblem)
  | fault (cause : Fault)
  deriving DecidableEq, Repr

def Error.message : Error → String
  | .malformedStream flaw => "Malformed scope stream: " ++ flaw.message
  | .unknownSymbol id => "Unknown symbol id: " ++ id.text
  | .damaged damage => "Scope graph invariant violated: " ++ damage.message
  | .noTree language => s!"Parse error: {language} parser produced no tree"
  | .unreadableQuery path problem => s!"Adapter error: cannot read query {path}: {problem.message}"
  | .unsupportedLanguage what => "Unsupported language: " ++ what
  | .file problem => "IO error: " ++ problem.message
  | .fault cause => cause.message

/-- A computation that can only break a bound, as one that can fail in any way. -/
def Error.ofFault {α : Type} (x : Except Fault α) : Except Error α := x.mapError .fault

@[simp] theorem Error.ofFault_ok {α : Type} (a : α) : Error.ofFault (.ok a) = .ok a := rfl

@[simp] theorem Error.ofFault_error {α : Type} (cause : Fault) :
    (Error.ofFault (.error cause) : Except Error α) = .error (.fault cause) := rfl

instance : MonadLift (Except Fault) (Except Error) := ⟨Error.ofFault⟩

end NameBinding
