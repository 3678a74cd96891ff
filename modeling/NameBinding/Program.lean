import NameBinding.Command.Inspect
import NameBinding.Command.Project
import NameBinding.Command.Stats
import NameBinding.CommandLine.Basic

/-!
# The program

A run of the program as a function of its command line and the files it sees.

* `Outcome` — what a run leaves behind: an exit code, what was said, the files.
* `Program.run` — a run.
-/

namespace NameBinding

/-- What a run leaves behind. -/
structure Outcome where
  code : Nat
  files : Files
  /-- Is the whole log shown? -/
  verbose : Bool := false
  said : List Output := []

namespace Program

/-- The name and version of the program. -/
def versionText : String := "scopegraph 0.0.1"

/-- The exit code of a run that failed. -/
def failureCode : Nat := 1

/-- The exit code of a command line that cannot be understood. -/
def misuseCode : Nat := 2

/-- The exit code of a run in which a bound was broken. -/
def faultCode : Nat := 101

/-- The settings of a run. -/
def loadSettings (path : String) : Session Settings := do
  match ← Session.ofSettings (Settings.load (← get).files (some path)) with
  | none => return {}
  | some settings =>
      Session.say [.log .debug s!"loaded config from {path}"]
      return settings

/-- The languages of a run. -/
def loadRegistry (settings : Settings) : Session Registry := do
  Session.say (Registry.warnings settings)
  Session.ofAnalysis (Registry.ofSettings (← get).files settings)

/-- The format of a run. -/
def pickFormat (flag : Option Format) (settings : Settings) : Session Format := do
  Session.say (Format.warnings flag settings)
  return Format.pick flag settings

/-- The number of workers: the one asked for, or the one in the settings, or one for each
processor; at least one. -/
def workers (flag : Option Nat) (settings : Settings) (processors : Nat) : Nat :=
  max 1 ((flag.orElse fun _ => settings.threads).getD processors)

/-- Carry out a request, given settings and languages. -/
def perform (processors : Nat) (settings : Settings) (r : Registry) : Request → Session Unit
  | .render file language format => do
      Command.render r file language (← pickFormat format settings)
  | .lookup file line column language => Command.lookup r file line column language
  | .stats path threads format => do
      let root := (path.orElse fun _ => settings.path).getD "."
      Command.stats r settings.exclude root (workers threads settings processors)
        (← pickFormat format settings)
  | .languages => Command.languages r
  | .init _ => return

/-- Carry out an invocation. A first settings file is written without reading settings. -/
def session (processors : Nat) (i : Invocation) : Session Unit := do
  let path := i.config.getD Settings.defaultPath
  match i.request with
  | .init force => Command.init path force
  | request => do
      let settings ← loadSettings path
      perform processors settings (← loadRegistry settings) request

/-- The exit code of a failed command. -/
def codeOf : CommandError → Nat
  | .analysis (.fault _) => faultCode
  | _ => failureCode

/-- A run of the program. -/
def run (theme : Theme) (processors : Nat) (files : Files) (arguments : List String) : Outcome :=
  match CommandLine.parse arguments with
  | .error .misuse => { code := misuseCode, files }
  | .error .version => { code := 0, files, said := [.outLine versionText] }
  | .ok i =>
      let (result, w) := (session processors i).run.run { files, theme }
      match result with
      | .ok () => { code := 0, files := w.files, verbose := i.verbose, said := w.said }
      | .error e =>
          { code := codeOf e, files := w.files, verbose := i.verbose,
            said := w.said ++ [.err e.report] }

end Program

end NameBinding
