import NameBinding.Files.Basic
import NameBinding.SortedMap
import NameBinding.Text.Lowercase
import NameBinding.Toml.Parser
import NameBinding.Toml.Printer

/-!
# Settings

The settings of a project, kept in a TOML file.

* `Settings` — where to look for sources, what to leave out, how to print, and
  changes to the languages.
* `Settings.text`, `Settings.ofText?` — the written form, and its reader.
* `Settings.load`, `Settings.save` — settings in a file.
-/

namespace NameBinding

/-- Changes to a language. -/
structure LanguageSettings where
  /-- The file with the queries of the language. -/
  query : Option String := none
  /-- The symbols of the language. -/
  namespaces : Option SymbolTable := none
  deriving DecidableEq, Repr

/-- The settings of a project. -/
structure Settings where
  /-- Where statistics look for sources. -/
  path : Option String := none
  /-- Patterns of files to leave out. -/
  exclude : List String := []
  /-- How results are printed. -/
  format : Option String := none
  /-- How many workers statistics use. -/
  threads : Option Nat := none
  /-- Changes to languages, by their names in lower case. -/
  languages : SortedMap LanguageSettings := .empty
  deriving DecidableEq

/-- Why settings could not be read or written. -/
inductive SettingsError where
  | file (problem : FileProblem)
  /-- The file has no settings in TOML. -/
  | malformed
  /-- A number does not fit into the written form. -/
  | unwritable
  /-- A file would be overwritten. -/
  | alreadyExists (path : String)
  deriving DecidableEq, Repr

def SettingsError.message : SettingsError → String
  | .file problem => problem.message
  | .malformed => "TOML parse error"
  | .unwritable => "out-of-range value for i64 type"
  | .alreadyExists path => s!"config already exists at {path} (use --force to overwrite)"

namespace Settings

/-- The settings file that is read if none is named. -/
def defaultPath : String := "scopegraph.toml"

/-- The changes to the language of a given name. -/
def language? (s : Settings) (name : String) : Option LanguageSettings :=
  s.languages.get? (Text.lowercase name)

/-! ### The written form -/

/-- A written list of texts. -/
def textsText (texts : List String) : String := Toml.arrayText (texts.map Toml.stringText)

/-- A written table of symbols. -/
def symbolsText (symbols : SymbolTable) : String := Toml.arrayText (symbols.spaces.map textsText)

/-- The lines of an optional member. -/
def optionalLine (key : String) (value : Option String) : String :=
  value.elim "" (Toml.pairLine key)

/-- The table of a language, after an empty line. -/
def languageText (name : String) (s : LanguageSettings) : String :=
  "\n" ++ Toml.headerLine ["languages", name] ++
    optionalLine "query" (s.query.map Toml.stringText) ++
    optionalLine "namespaces" (s.namespaces.map symbolsText)

/-- The written form of settings. -/
def text (s : Settings) : String :=
  optionalLine "path" (s.path.map Toml.stringText) ++
    Toml.pairLine "exclude" (textsText s.exclude) ++
    optionalLine "format" (s.format.map Toml.stringText) ++
    optionalLine "threads" (s.threads.map Nat.repr) ++
    if s.languages.entries.isEmpty then "\n" ++ Toml.headerLine ["languages"]
    else String.join (s.languages.entries.map fun (name, l) => languageText name l)

/-- Numbers of the written form stay below this bound. -/
def integerBound : Nat := 0x8000000000000000

/-- Do the settings have a written form? -/
def isWritable (s : Settings) : Bool := s.threads.all (· < integerBound)

/-! ### Reading -/

/-- A list of texts. -/
def texts? (v : Toml) : Option (List String) := v.array?.bind (·.mapM Toml.string?)

/-- A table of symbols. -/
def symbols? (v : Toml) : Option SymbolTable :=
  v.array?.bind fun rows => (rows.mapM texts?).map fun spaces => { spaces }

/-- A natural number. -/
def natural? : Toml → Option Nat
  | .integer n => if 0 ≤ n then some n.toNat else none
  | _ => none

/-- A member that may be missing but has to be readable if it is there. -/
def optional? {α : Type} (read : Toml → Option α) : Option Toml → Option (Option α)
  | none => some none
  | some v => (read v).map some

/-- The changes to a language: a table, or the members in order. A date stands for no
changes. -/
def languageSettings? : Toml → Option LanguageSettings
  | .table entries => do
      return {
        query := ← optional? Toml.string? (Toml.entry? entries "query")
        namespaces := ← optional? symbols? (Toml.entry? entries "namespaces") }
  | .array items => do
      return {
        query := ← optional? Toml.string? items[0]?
        namespaces := ← optional? symbols? items[1]? }
  | .datetime _ => some {}
  | _ => none

/-- The changes to all languages. -/
def languages? : Toml → Option (SortedMap LanguageSettings)
  | .table entries =>
      (entries.mapM fun e => (languageSettings? e.2).map (e.1, ·)).map .ofList
  | _ => none

/-- The settings in a table; other members of it are passed over. -/
def ofEntries? (entries : List (String × Toml)) : Option Settings := do
  let member := Toml.entry? entries
  return {
    path := ← optional? Toml.string? (member "path")
    exclude := (← optional? texts? (member "exclude")).getD []
    format := ← optional? Toml.string? (member "format")
    threads := ← optional? natural? (member "threads")
    languages := (← optional? languages? (member "languages")).getD .empty }

/-- The settings in a text. -/
def ofText? (text : String) : Option Settings := (Toml.parse? text).bind ofEntries?

/-! ### Files -/

/-- The settings in a file, if there is one. -/
def load (files : Files) (path : Option String) : Except SettingsError (Option Settings) :=
  let path := path.getD defaultPath
  if files.exists? path then
    match files.readText path with
    | .error problem => .error (.file problem)
    | .ok text =>
        match ofText? text with
        | none => .error .malformed
        | some settings => .ok (some settings)
  else .ok none

/-- The files after settings were written; a file is overwritten only by `force`. -/
def save (files : Files) (path : String) (s : Settings) (force : Bool) :
    Except SettingsError Files :=
  if files.exists? path && !force then .error (.alreadyExists path)
  else if !s.isWritable then .error .unwritable
  else (files.write path s.text).mapError .file

end Settings

end NameBinding
