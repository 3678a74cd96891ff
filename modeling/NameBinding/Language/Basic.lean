import NameBinding.Construction
import NameBinding.Error
import NameBinding.Files.Path
import NameBinding.Resolution
import NameBinding.Terminal.Output

/-!
# Languages

A language knows its files by their extensions, sorts its symbols into name
spaces, and reads a source text as a stream of events.

* `Language` — name, extensions, symbols and reader.
* `Language.handles` — is a file of the language?
* `Language.analyze` — the resolved graph of a source text.
-/

namespace NameBinding

/-- What a language finds in a source text. -/
structure SourceEvents where
  /-- The span of the outermost scope. -/
  root : Span
  events : List Event
  deriving DecidableEq, Repr

/-- A language whose sources can be analysed. -/
structure Language where
  name : String
  /-- The extensions of its files, without the dot. -/
  extensions : List String
  symbols : SymbolTable
  /-- The events of a source text. -/
  read : String → Except Error SourceEvents

/-- An analysed source text. -/
structure AnalyzedUnit where
  /-- The path it was analysed under. -/
  path : String
  /-- The name of its language. -/
  language : String
  graph : Graph
  counts : BindingCounts
  /-- The references that only repeat the name of a declaration. -/
  dropped : Nat

namespace Language

/-- Is a file of the language, as far as its extension tells? -/
def handles (l : Language) (path : String) : Bool :=
  (Path.extension? path).any (l.extensions.contains ·)

/-- The graph of a source text before its references are resolved, and the number of
dropped references. -/
def build (l : Language) (content : String) : Except Error (Graph × Nat) := do
  let stream ← l.read content
  let c ← ((Construction.start stream.root l.symbols).pushAll stream.events).mapError .malformedStream
  let g ← c.finish.mapError .malformedStream
  return (g, c.dropped)

/-- The resolved graph of a source text. -/
def analyze (l : Language) (path content : String) : Except Error AnalyzedUnit := do
  let (g, dropped) ← l.build content
  let (graph, counts) ← g.resolve
  return { path, language := l.name, graph, counts, dropped }

end Language

/-- What the log tells about an analysis. -/
def AnalyzedUnit.log (u : AnalyzedUnit) : Except Fault (List Output) := do
  let g := u.graph.counts
  let s := u.counts
  return [
    .log .debug <| s!"built scope graph: {g.scopes} scopes, {g.definitions} defs, " ++
      s!"{g.imports} imports, {g.references} refs ({u.dropped} dropped as definitions)",
    .log .debug s!"resolved {← s.resolved}/{s.references} references ({s.unresolved} unresolved)",
    .log .debug s!"{u.path}: {s.references} references, {s.unresolved} unresolved"]

end NameBinding
