/-!
# Output

What a program says while it runs, in order: text for the reader, text about
trouble, and messages of a log.

* `Output` — one thing said.
* `Output.printed`, `Output.complaints` — the two channels of a run. `Output.troubles`
  puts the log between the complaints, line by line.
-/

namespace NameBinding

/-- The weight of a log message. -/
inductive Level where
  | debug
  | info
  | warn
  deriving DecidableEq, Repr

def Level.name : Level → String
  | .debug => "DEBUG"
  | .info => "INFO"
  | .warn => "WARN"

/-- One thing a program says. -/
inductive Output where
  /-- Text on the standard output. -/
  | out (text : String)
  /-- Text on the standard output around the time that the run took. -/
  | elapsed (before after : String)
  /-- Text on the standard error output. -/
  | err (text : String)
  /-- A message of the log. -/
  | log (level : Level) (message : String)
  deriving DecidableEq, Repr

namespace Output

/-- A line on the standard output. -/
def outLine (text : String) : Output := .out (text ++ "\n")

/-- A line on the standard error output. -/
def errLine (text : String) : Output := .err (text ++ "\n")

/-- The text on the standard output of a run that took some time. -/
def printed (time : String) (os : List Output) : String :=
  String.join <| os.map fun
    | .out text => text
    | .elapsed before after => before ++ time ++ after
    | _ => ""

/-- The text on the standard error output, without the log. -/
def complaints (os : List Output) : String :=
  String.join <| os.map fun
    | .err text => text
    | _ => ""

/-- Is a message of this weight shown? -/
def isShown (verbose : Bool) (level : Level) : Bool := verbose || level != .debug

/-- The text on the standard error output, with the messages of the log as lines. -/
def troubles (verbose : Bool) (os : List Output) : String :=
  String.join <| os.map fun
    | .out _ | .elapsed _ _ => ""
    | .err text => text
    | .log level message =>
        if isShown verbose level then level.name ++ " " ++ message ++ "\n" else ""

end Output

end NameBinding
