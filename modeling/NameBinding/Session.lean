import NameBinding.Settings
import NameBinding.Terminal.Style
import NameBinding.Terminal.Output

/-!
# Sessions

A command reads and writes files and says things. What it said before it failed stays
said.

* `CommandError` — why a command fails, with the cause behind it if there is one.
* `Session` — a command under way.
* `Session.saveSettings` — write settings to a file.
-/

namespace NameBinding

/-- Why a command fails. -/
inductive CommandError where
  | analysis (cause : Error)
  | settings (cause : SettingsError)
  /-- A source file cannot be read. -/
  | unreadable (file : String) (problem : FileProblem)
  /-- A line and column that are not in the file. -/
  | outside (file : String) (line column : Nat)
  deriving DecidableEq, Repr

namespace CommandError

/-- What is told first. -/
def message : CommandError → String
  | .analysis cause => cause.message
  | .settings cause => cause.message
  | .unreadable file _ => "failed to read " ++ file
  | .outside file line column => s!"{file}:{line}:{column} is outside the file"

/-- The causes behind an error. -/
def causes : CommandError → List String
  | .unreadable _ problem => [problem.message]
  | _ => []

/-- An error and its causes in one line. -/
def chain (e : CommandError) : String := ": ".intercalate (e.message :: e.causes)

/-- An error and its causes as the end of a run. -/
def report (e : CommandError) : String :=
  "Error: " ++ e.message ++ "\n" ++
    match e.causes with
    | [] => ""
    | causes => "\nCaused by:\n" ++ String.join (causes.map fun c => "    " ++ c ++ "\n")

end CommandError

/-- What a command works on. -/
structure World where
  files : Files
  theme : Theme := .plain
  /-- What was said so far, in order. -/
  said : List Output := []

/-- A command under way. -/
abbrev Session := ExceptT CommandError (StateM World)

namespace Session

/-- Say some things. -/
def say (os : List Output) : Session Unit := modify fun w => { w with said := w.said ++ os }

/-- Go on with a result, or fail. -/
def ofExcept {ε α : Type} (f : ε → CommandError) : Except ε α → Session α
  | .ok a => pure a
  | .error e => throw (f e)

/-- Go on with the result of an analysis. -/
def ofAnalysis {α : Type} (x : Except Error α) : Session α := ofExcept .analysis x

/-- Go on with a result unless a bound was broken. -/
def ofFault {α : Type} (x : Except Fault α) : Session α :=
  ofExcept (fun f => .analysis (.fault f)) x

/-- Go on with what became of settings. -/
def ofSettings {α : Type} (x : Except SettingsError α) : Session α := ofExcept .settings x

/-- Write settings to a file; one that is there is overwritten only by `force`. -/
def saveSettings (path : String) (s : Settings) (force : Bool) : Session Unit := do
  let files ← ofSettings (Settings.save (← get).files path s force)
  modify ({ · with files })

section Runs

variable {α β ε : Type} {x : Session α} {f : α → Session β} {a : α} {e : CommandError}
  {w w' : World}

theorem run_bind_ok (h : x.run w = (.ok a, w')) : (x >>= f).run w = (f a).run w' := by
  show ExceptT.bindCont f (x.run w).1 (x.run w).2 = _
  rw [h]
  rfl

theorem run_bind_error (h : x.run w = (.error e, w')) : (x >>= f).run w = (.error e, w') := by
  show ExceptT.bindCont f (x.run w).1 (x.run w).2 = _
  rw [h]
  rfl

theorem run_get_bind {f : World → Session β} : (get >>= f).run w = (f w).run w := rfl

theorem run_say_bind {os : List Output} {f : Unit → Session β} :
    (say os >>= f).run w = (f ()).run { w with said := w.said ++ os } := rfl

theorem run_ofExcept_ok {g : ε → CommandError} {y : Except ε α} (h : y = .ok a) :
    (ofExcept g y).run w = (.ok a, w) := by
  rw [h]
  rfl

theorem run_ofExcept_error {g : ε → CommandError} {c : ε} {y : Except ε α}
    (h : y = .error c) : (ofExcept g y).run w = (.error (g c), w) := by
  rw [h]
  rfl

end Runs
end Session

end NameBinding
