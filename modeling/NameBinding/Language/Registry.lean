import NameBinding.Language.Basic
import NameBinding.Settings

/-!
# The registry of languages

* `Registry.find?` — the first language that handles a file.
* `Registry.named?` — a language by its name.
* `Registry.analyze` — a source text in the language of its file.
* `Registry.standard` — the languages that are always there.
* `Registry.ofSettings` — these with the changes that settings make.
-/

namespace NameBinding

/-- The known languages, in the order in which they are asked. -/
structure Registry where
  languages : List Language

namespace Registry

/-- The first language that handles a file. -/
def find? (r : Registry) (path : String) : Option Language :=
  r.languages.find? (·.handles path)

/-- Are two texts equal up to the case of basic Latin letters? -/
def sameLetters (a b : String) : Bool := a.toList.map Char.toLower == b.toList.map Char.toLower

/-- The first language of a name, in whatever case it is written. -/
def named? (r : Registry) (name : String) : Option Language :=
  r.languages.find? fun l => sameLetters l.name name

/-- Analyse a source text; there is no result if no language handles the file. -/
def analyze (r : Registry) (path content : String) : Except Error (Option AnalyzedUnit) :=
  match r.find? path with
  | none => .ok none
  | some l => (l.analyze path content).map some

/-! ### Built-in languages -/

/-- A language that finds no names, only the text as a whole. -/
def plainLanguage (name : String) (extensions : List String) (spaces : List (List String)) :
    Language where
  name
  extensions
  symbols := ⟨spaces⟩
  read content := .ok ⟨.ofText content, []⟩

/-- The languages that are always there. -/
def standard : Registry where
  languages := [
    plainLanguage "Python" ["py", "pyi"] [["class", "function", "parameter", "variable"]],
    plainLanguage "JavaScript" ["js", "jsx", "mjs", "cjs"]
      [["class", "function", "parameter", "variable"]],
    plainLanguage "Rust" ["rs"]
      [["const", "function", "variable", "field", "enumerator"],
        ["struct", "enum", "union", "typedef", "interface", "module"], ["label"], ["lifetime"]],
    plainLanguage "Go" ["go"] [["const", "function", "method", "variable"], ["type"]]]

/-- The names under which settings can change languages. -/
def standardNames : List String := standard.languages.map fun l => l.name.toLower

/-- A language with the changes that settings make. Its query file has to be readable. -/
def configure (files : Files) (settings : Settings) (l : Language) : Except Error Language :=
  match settings.language? l.name with
  | none => .ok l
  | some changes => do
      if let some path := changes.query then
        if let .error problem := files.readText path then
          throw (.unreadableQuery path problem)
      return { l with symbols := changes.namespaces.getD l.symbols }

/-- The built-in languages with the changes that settings make. -/
def ofSettings (files : Files) (settings : Settings) : Except Error Registry := do
  return ⟨← standard.languages.mapM (configure files settings)⟩

/-- The warnings about changes to unknown languages. -/
def warnings (settings : Settings) : List Output :=
  (settings.languages.entries.filter fun e => !standardNames.contains e.1).map fun e =>
    .log .warn s!"no built-in adapter for configured language `{e.1}`"

end Registry

end NameBinding
