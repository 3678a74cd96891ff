import NameBinding.Format
import NameBinding.Report
import NameBinding.Session
import NameBinding.SourceTree
import NameBinding.Terminal.Console

/-!
# Statistics of a source tree

* `Command.selected` — the files to analyse: the sources that some language handles.
* `Command.fileMessage`, `Command.messages` — what becomes of one of them, and of all.
* `Command.stats` — print the report.
-/

namespace NameBinding
namespace Command

/-- The paths that some language handles. -/
def handled (r : Registry) (paths : List String) : List String :=
  paths.filter fun p => (r.find? p).isSome

/-- The sources below a root that some language handles. -/
def selected (r : Registry) (files : Files) (root : String) (excludes : List String) :
    List String :=
  handled r (SourceTree.sources files (.make files root excludes) root)

/-- The path under which a file is reported: the one seen from the root. Paths are Unicode
texts, so it is reported as it is. -/
def reportedPath (root file : String) : String := (Path.strip? root file).getD file

/-- What the log tells about a file. -/
def unitLog (path : String) : Except Error (Option AnalyzedUnit) → Except Fault (List Output)
  | .ok (some u) => u.log
  | result =>
      match FileResult.ofResult path result with
      | .failed path failure =>
          .ok [.log .debug s!"failed to analyze {path}: {failure.message}"]
      | .analyzed .. => .ok []

/-- What becomes of a file, and what the log tells about it; a broken bound leaves no
message. -/
def fileMessage (r : Registry) (files : Files) (root file : String) :
    Except Fault (FileResult × List Output) := do
  let path := reportedPath root file
  let result := r.analyzeStored files file path
  if let .error (.fault f) := result then throw f
  return (.ofResult path result, ← unitLog path result)

/-- Analyse some files, one after the other. -/
def messages (r : Registry) (root : String) : List String → Session (List FileResult)
  | [] => return []
  | file :: rest => do
      let (message, log) ← Session.ofFault (fileMessage r (← get).files root file)
      Session.say log
      return message :: (← messages r root rest)

/-- Print a report as text. -/
def sayReport (root : String) (report : Report) : Session Unit := do
  let t := (← get).theme
  let totals ← Session.ofFault report.totals
  let resolved ← Session.ofFault totals.resolved
  Session.say (Console.summary t report.files totals.references resolved)
  Session.say [Console.heading t s!"{Icon.stats} Scope graphs under {root}"]
  Session.say [.outLine (Console.languageTable
    (report.languages.entries.map fun e => (e.1, e.2.files, e.2.graph)))]
  Session.say [.outLine (Console.metricTable
    [("Bound to definitions", totals.toDefinitions.repr),
      ("Bound to imports", totals.toImports.repr), ("Unresolved", totals.unresolved.repr)])]
  Session.say (report.failures.map fun f => Console.error t s!"{f.path}: {f.failure.message}")

/-- Analyse the sources below a root and print the report. -/
def stats (r : Registry) (excludes : List String) (root : String) (threads : Nat)
    (format : Format) : Session Unit := do
  let files := (← get).files
  Session.say (TreeFilter.warnings excludes ++ SourceTree.log files root)
  let chosen := selected r files root excludes
  if chosen.isEmpty then
    Session.say [Console.warn (← get).theme s!"No supported source files under {root}"]
  else
    Session.say [.log .info s!"Analyzing {chosen.length} files with {threads} threads"]
    let report ← Session.ofFault (Report.ofMessages (← messages r root chosen))
    match format with
    | .json => Session.say [.outLine report.toJson.pretty]
    | .text => sayReport root report

end Command
end NameBinding
