import NameBinding.Language.Registry
import NameBinding.Session
import NameBinding.Terminal.Console

/-!
# Commands about a project

* `Command.languages` — print the known languages.
* `Command.init` — write a first settings file.
-/

namespace NameBinding
namespace Command

/-- Print the known languages. -/
def languages (r : Registry) : Session Unit := do
  Session.say [Console.heading (← get).theme s!"{Icon.package} Language adapters"]
  Session.say [.outLine (Console.registryTable
    (r.languages.map fun l => (l.name, ", ".intercalate l.extensions, l.symbols.text)))]

/-- The settings a project starts with. -/
def firstSettings : Settings := { path := some ".", format := some "text" }

/-- Write a first settings file; one that is there is overwritten only by `force`. -/
def init (path : String) (force : Bool) : Session Unit := do
  Session.saveSettings path firstSettings force
  let t := (← get).theme
  Session.say [Console.success t ("Wrote " ++ path),
    Console.info t "Next" "add [languages.<name>] sections to override queries or namespaces"]

end Command
end NameBinding
