import NameBinding.Graph.Counts
import NameBinding.Json.Basic
import NameBinding.Language.Registry

/-!
# Reports

What an analysis of many files found. Each file yields one message, and the report
sums them up by language.

* `FileResult.ofFile` — the message of one file.
* `Report.absorb` — take in one message.
* `Report.ofMessages` — the report of all messages, with the failures in order.
* `Report.toJson` — the report as JSON.
-/

namespace NameBinding

/-- Why a file could not be analysed. -/
inductive FileFailure where
  | error (cause : Error)
  /-- No language handles the file. -/
  | noLanguage
  deriving DecidableEq, Repr

def FileFailure.message : FileFailure → String
  | .error cause => cause.message
  | .noLanguage => "no adapter for file"

/-- What became of one file. -/
inductive FileResult where
  | analyzed (path language : String) (graph : GraphCounts) (resolution : BindingCounts)
  | failed (path : String) (failure : FileFailure)
  deriving DecidableEq, Repr

/-- What was found in the files of one language. -/
structure LanguageTotals where
  files : Nat := 0
  graph : GraphCounts := {}
  resolution : BindingCounts := {}
  deriving DecidableEq, Repr, Inhabited

/-- A file that could not be analysed. -/
structure FailedFile where
  path : String
  failure : FileFailure
  deriving DecidableEq, Repr

/-- What was found in all files. -/
structure Report where
  /-- The number of files that were analysed. -/
  files : Nat := 0
  languages : SortedMap LanguageTotals := .empty
  failures : List FailedFile := []
  deriving DecidableEq

/-! ### Messages -/

namespace FileResult

/-- The message of an analysis. -/
def ofResult (path : String) : Except Error (Option AnalyzedUnit) → FileResult
  | .ok (some u) => .analyzed path u.language u.graph.counts u.counts
  | .ok none => .failed path .noLanguage
  | .error e => .failed path (.error e)

end FileResult

/-- The analysis of a file under another path. -/
def Registry.analyzeStored (r : Registry) (files : Files) (file path : String) :
    Except Error (Option AnalyzedUnit) := do
  r.analyze path (← (files.readText file).mapError .file)

/-- The message of a file that is analysed under another path. -/
def FileResult.ofFile (r : Registry) (files : Files) (file path : String) : FileResult :=
  .ofResult path (r.analyzeStored files file path)

/-! ### Sums -/

/-- The sum of two summaries. -/
def GraphCounts.sum (a b : GraphCounts) : Except Fault GraphCounts :=
  match b.absorb.run a with
  | (.ok (), total) => .ok total
  | (.error f, _) => .error f

/-- The sum of two summaries. -/
def BindingCounts.sum (a b : BindingCounts) : Except Fault BindingCounts :=
  match b.absorb.run a with
  | (.ok (), total) => .ok total
  | (.error f, _) => .error f

/-- Take in one more file of a language. -/
def LanguageTotals.absorb (s : LanguageTotals) (graph : GraphCounts)
    (resolution : BindingCounts) : Except Fault LanguageTotals := do
  return {
    files := ← Size.add s.files 1
    graph := ← s.graph.sum graph
    resolution := ← s.resolution.sum resolution }

namespace Report

/-- Take in one message. -/
def absorb (r : Report) : FileResult → Except Fault Report
  | .analyzed _ language graph resolution => do
      let summary ← ((r.languages.get? language).getD {}).absorb graph resolution
      return { r with
        languages := r.languages.insert language summary
        files := ← Size.add r.files 1 }
  | .failed path failure => .ok { r with failures := r.failures ++ [⟨path, failure⟩] }

/-- The report with the failures in the order of their paths. -/
def inOrder (r : Report) : Report :=
  { r with failures := r.failures.mergeSort fun a b => !decide (b.path < a.path) }

/-- The report of all messages. -/
def ofMessages (messages : List FileResult) : Except Fault Report := do
  return (← messages.foldlM absorb {}).inOrder

/-- What became of all references. -/
def totals (r : Report) : Except Fault BindingCounts :=
  r.languages.entries.foldlM (fun total e => total.sum e.2.resolution) {}

end Report

/-! ### JSON -/

def GraphCounts.toJson (s : GraphCounts) : Json :=
  .object [("scopes", .natural s.scopes), ("definitions", .natural s.definitions),
    ("imports", .natural s.imports), ("references", .natural s.references),
    ("resolved", .natural s.resolved), ("edges", .natural s.edges)]

def BindingCounts.toJson (s : BindingCounts) : Json :=
  .object [("references", .natural s.references), ("to_definitions", .natural s.toDefinitions),
    ("to_imports", .natural s.toImports), ("unresolved", .natural s.unresolved)]

def LanguageTotals.toJson (s : LanguageTotals) : Json :=
  .object [("files", .natural s.files), ("graph", s.graph.toJson),
    ("resolution", s.resolution.toJson)]

def FailedFile.toJson (f : FailedFile) : Json :=
  .object [("path", .string f.path), ("error", .string f.failure.message)]

def Report.toJson (r : Report) : Json :=
  .object [("files", .natural r.files),
    ("languages", .object (r.languages.entries.map fun e => (e.1, e.2.toJson))),
    ("failures", .array (r.failures.map FailedFile.toJson))]

end NameBinding
