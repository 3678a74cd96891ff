import NameBinding.Fault
import NameBinding.Graph.Counts
import NameBinding.Terminal.Icon
import NameBinding.Terminal.Output
import NameBinding.Terminal.Percent
import NameBinding.Terminal.Style
import NameBinding.Terminal.Table

/-!
# The console

The kinds of lines that commands print, in the styles of a theme.

* `Console.header`, `Console.success`, `Console.error`, `Console.warn`,
  `Console.info`, `Console.heading`, `Console.nodeRow`, `Console.detailRow`.
* `Console.summary` — the end of a longer run.
* `Console.languageTable`, `Console.registryTable`, `Console.metricTable`.
-/

namespace NameBinding
namespace Console

/-- The first line of an answer. -/
def header (t : Theme) (text : String) : Output :=
  .outLine (Icon.rocket ++ " " ++ t.header.paint text)

/-- Something worked. -/
def success (t : Theme) (text : String) : Output :=
  .outLine (Icon.check ++ " " ++ t.success.paint text)

/-- Something went wrong. -/
def error (t : Theme) (text : String) : Output :=
  .errLine (Icon.cross ++ " " ++ t.error.paint text)

/-- Something may be wrong. -/
def warn (t : Theme) (text : String) : Output :=
  .errLine (Icon.warn ++ " " ++ t.warn.paint text)

/-- A value and what it is. -/
def info (t : Theme) (label value : String) : Output :=
  .outLine (t.info.paint Icon.info ++ " " ++ t.dim.paint label ++ ": " ++ value)

/-- The title of what follows, after an empty line. -/
def heading (t : Theme) (title : String) : Output :=
  .out ("\n━" ++ t.header.paint title ++ "━\n")

/-- A point as line and column, both counted from one. -/
def position (p : Point) : Except Fault String := do
  return s!"{← Size.add p.row 1}:{← Size.add p.column 1}"

/-- A node, where it starts, and its surroundings. -/
def nodeRow (t : Theme) (node : Node) (bound : Bool) (kind context : String) :
    Except Fault Output := do
  let place ← position node.span.start
  return .outLine <| "  " ++ " ".intercalate
    [Icon.ofNode bound node, t.dim.paint kind, (t.node bound node).paint (node.name?.getD ""),
      t.info.paint place, t.dim.paint context]

/-- A row of a short list. -/
def detailRow (t : Theme) (label value : String) : Output :=
  .outLine ("  " ++ t.dim.paint label ++ " " ++ value)

/-- The end of a run over many files. -/
def summary (t : Theme) (files references resolved : Nat) : List Output :=
  [.outLine "",
    .elapsed (t.success.paint Icon.check ++ " " ++ t.success.opening ++ "Complete in ")
      (t.success.closing ++ "\n"),
    .outLine ("  " ++ "  ".intercalate
      [t.info.paint Icon.file ++ s!" {files}", t.info.paint Icon.search ++ s!" {references}",
        t.info.paint Icon.link ++ s!" {resolved}"])]

/-- How many references are resolved, and which share of them. -/
def resolvedText (g : GraphCounts) : String :=
  if g.references = 0 then "-"
  else s!"{g.resolved} ({Percent.text g.resolved g.references})"

/-- The graphs of each language: its name, its number of files, what they hold. -/
def languageTable (rows : List (String × Nat × GraphCounts)) : String :=
  Table.render ["Language", "Files", "Scopes", "Defs", "Imports", "Refs", "Resolved"] <|
    rows.map fun (language, files, g) =>
      [language] ++ [files, g.scopes, g.definitions, g.imports, g.references].map Nat.repr ++
        [resolvedText g]

/-- The languages: name, extensions, symbols. -/
def registryTable (rows : List (String × String × String)) : String :=
  Table.render ["Language", "Extensions", "Namespaces"] <|
    rows.map fun (language, extensions, symbols) => [language, extensions, symbols]

/-- Values and what they are. -/
def metricTable (rows : List (String × String)) : String :=
  Table.render ["Metric", "Value"] <| rows.map fun (label, value) => [label, value]

end Console
end NameBinding
