import NameBinding.Format
import NameBinding.Language.Registry
import NameBinding.Outline.Json
import NameBinding.Outline.Text
import NameBinding.Session
import NameBinding.Terminal.Console
import NameBinding.Text.Position

/-!
# Commands about one file

* `Command.render` — print the outline of a file.
* `Command.lookup` — print what the name at a position is bound to, and its uses.
-/

namespace NameBinding
namespace Command

/-- The language of a file: the one that is named, or the one that handles the file. -/
def languageFor (r : Registry) (file : String) (language : Option String) :
    Except Error Language :=
  let found := match language with
    | some name => r.named? name
    | none => r.find? file
  match found with
  | some l => .ok l
  | none => .error (.unsupportedLanguage (language.getD file))

/-- The text of a source file. -/
def sourceText (file : String) : Session String := do
  match (← get).files.readText file with
  | .ok text => return text
  | .error problem => throw (.unreadable file problem)

/-- The language, the text and the graph of a file. -/
def analyzeSource (r : Registry) (file : String) (language : Option String) :
    Session (Language × String × AnalyzedUnit) := do
  let l ← Session.ofAnalysis (languageFor r file language)
  let content ← sourceText file
  let u ← Session.ofAnalysis (l.analyze file content)
  Session.say (← Session.ofFault u.log)
  return (l, content, u)

/-- Print the outline of a file. -/
def render (r : Registry) (file : String) (language : Option String) (format : Format) :
    Session Unit := do
  let (l, content, u) ← analyzeSource r file language
  let resolved ← Session.ofFault u.counts.resolved
  Session.say
    [.log .info s!"{u.path}: {u.counts.references} references, {resolved} resolved"]
  let outline := u.graph.outline content l.symbols Graph.root
  match format with
  | .json => Session.say [.outLine outline.toJson.pretty]
  | .text => Session.say [.out outline.text]

/-- The line of a node with its surroundings. -/
def sayNode (content : String) (node : Node) (bound : Bool) (kind : String) : Session Unit := do
  let line ← Session.ofFault
    (Console.nodeRow (← get).theme node bound kind (node.span.context content))
  Session.say [line]

/-- The line of a scope. -/
def sayScope (span : Span) : Session Unit := do
  let start ← Session.ofFault (Console.position span.start)
  let stop ← Session.ofFault (Console.position span.stop)
  Session.say [Console.detailRow (← get).theme Icon.scope s!"{start} - {stop}"]

/-- The title of what follows. -/
def sayHeading (title : String) : Session Unit := do
  Session.say [Console.heading (← get).theme title]

/-- The word for what a name is bound to. -/
def bindingKind (symbols : SymbolTable) : Node → String
  | .definition _ _ symbol => symbols.labelFor symbol
  | node => node.kind

/-- Print a binding, its uses and the scopes around it. -/
def sayBinding (l : Language) (content : String) (g : Graph) (target : Nat) (binding : Node) :
    Session Unit := do
  sayHeading "Binding"
  sayNode content binding true (bindingKind l.symbols binding)
  let uses := g.usesOf target
  sayHeading s!"References ({uses.length})"
  for reference in uses.filterMap g.node? do
    sayNode content reference true "ref"
  sayHeading "Scope chain"
  for scope in (← Session.ofFault (g.ancestry target)).filterMap g.node? do
    sayScope scope.span

/-- Print what the name at a position is bound to. -/
def lookup (r : Registry) (file : String) (line column : Nat) (language : Option String) :
    Session Unit := do
  let (l, content, u) ← analyzeSource r file language
  let g := u.graph
  match ← Session.ofFault (Text.offsetAt content.toList line column) with
  | none => throw (.outside file line column)
  | some byte =>
      Session.say [Console.header (← get).theme s!"{file}:{line}:{column}"]
      match (g.nameAt? byte).bind fun i => (g.node? i).map (i, ·) with
      | none =>
          Session.say
            [Console.warn (← get).theme "No definition, import or reference at this position"]
      | some (i, node) =>
          let target := if node.isReference then g.boundTo? i else some i
          match target.bind fun t => (g.node? t).map (t, ·) with
          | none => sayNode content node false "unresolved"
          | some (t, binding) => sayBinding l content g t binding

end Command
end NameBinding
