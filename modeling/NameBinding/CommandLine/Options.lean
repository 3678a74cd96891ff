/-!
# Options on a command line

Options have a long name, perhaps a letter, and perhaps a value. The value follows as
the next argument or is attached; letters of options without a value can be joined.
No option is given twice.

* `OptionSpec` — an option that is understood.
* `Options` — the options that were given.
* `Options.read` — read options up to the first other argument.
-/

namespace NameBinding

/-- Why a command line is not carried out. -/
inductive Halt where
  /-- It cannot be understood. -/
  | misuse
  /-- It asks for the version. -/
  | version
  deriving DecidableEq, Repr

/-- What an option does. -/
inductive OptionKind where
  | flag
  /-- It has a value that a predicate accepts. -/
  | value (accepts : String → Bool)
  /-- It asks for the version, whatever follows. -/
  | version

/-- An option that is understood. -/
structure OptionSpec where
  long : String
  letter : Option Char := none
  kind : OptionKind

/-- The options that were given, by their long names, in order. -/
structure Options where
  given : List (String × String) := []
  deriving DecidableEq, Repr

namespace Options

/-- Was an option given? -/
def has (o : Options) (name : String) : Bool := o.given.any (·.1 == name)

/-- The value of an option. -/
def get? (o : Options) (name : String) : Option String :=
  (o.given.find? (·.1 == name)).map Prod.snd

/-- Add an option that was not given yet. -/
def add (o : Options) (name value : String) : Except Halt Options :=
  if o.has name then .error .misuse else .ok ⟨o.given ++ [(name, value)]⟩

/-- Add an option with a value. -/
def addValue (o : Options) (s : OptionSpec) (value : String) : Except Halt Options :=
  match s.kind with
  | .value accepts => if accepts value then o.add s.long value else .error .misuse
  | _ => .error .misuse

/-- Is an argument an option? A hyphen alone is none. -/
def isOption (argument : String) : Bool := "-".isPrefixOf argument && argument != "-"

/-- What stands before and after the first equals sign. -/
def splitEquals (cs : List Char) : String × Option String :=
  (String.ofList (cs.takeWhile (· != '=')),
    match cs.dropWhile (· != '=') with
    | [] => none
    | _ :: value => some (String.ofList value))

/-- Read an option by its long name. It may be left waiting for its value. -/
def readLong (specs : List OptionSpec) (o : Options) (cs : List Char) :
    Except Halt (Options × Option OptionSpec) :=
  let (name, value) := splitEquals cs
  match specs.find? (·.long == name), value with
  | none, _ => .error .misuse
  | some s, some v => do return (← o.addValue s v, none)
  | some s, none =>
      match s.kind with
      | .flag => do return (← o.add s.long "", none)
      | .value _ => .ok (o, some s)
      | .version => .error .version

/-- Read joined letters. The last one may be left waiting for its value. -/
def readLetters (specs : List OptionSpec) (o : Options) :
    List Char → Except Halt (Options × Option OptionSpec)
  | [] => .ok (o, none)
  | c :: cs =>
      match specs.find? (·.letter == some c) with
      | none => .error .misuse
      | some s =>
          match s.kind, cs with
          | .flag, _ => do readLetters specs (← o.add s.long "") cs
          | .version, _ => .error .version
          | .value _, [] => .ok (o, some s)
          | .value _, '=' :: value | .value _, value => do
              return (← o.addValue s (String.ofList value), none)

/-- Read one argument that is an option. -/
def readOption (specs : List OptionSpec) (o : Options) (argument : String) :
    Except Halt (Options × Option OptionSpec) :=
  match argument.toList with
  | '-' :: '-' :: cs => readLong specs o cs
  | '-' :: cs => readLetters specs o cs
  | _ => .error .misuse

/-- Read options up to the first argument that is none. Nothing may follow two hyphens. -/
def read (specs : List OptionSpec) (o : Options) :
    List String → Except Halt (Options × List String)
  | [] => .ok (o, [])
  | argument :: rest =>
      if argument == "--" then if rest.isEmpty then .ok (o, []) else .error .misuse
      else if isOption argument then
        match readOption specs o argument with
        | .error halt => .error halt
        | .ok (o', none) => read specs o' rest
        | .ok (o', some s) =>
            match rest with
            | [] => .error .misuse
            | value :: rest' =>
                if isOption value then .error .misuse
                else
                  match o'.addValue s value with
                  | .error halt => .error halt
                  | .ok o'' => read specs o'' rest'
      else .ok (o, argument :: rest)

end Options

end NameBinding
