import NameBinding.CommandLine.Options
import NameBinding.Fault
import NameBinding.Format

/-!
# The command line

* `Request` — what the program is asked to do.
* `Invocation` — a request, where the settings are, and how much to log.
* `CommandLine.parse` — the invocation a command line stands for.
-/

namespace NameBinding

/-- What the program is asked to do. -/
inductive Request where
  /-- Print the outline of a file. -/
  | render (file : String) (language : Option String) (format : Option Format)
  /-- Print what the name at a position is bound to. -/
  | lookup (file : String) (line column : Nat) (language : Option String)
  /-- Print a report about a source tree. -/
  | stats (path : Option String) (threads : Option Nat) (format : Option Format)
  /-- Print the known languages. -/
  | languages
  /-- Write a first settings file. -/
  | init (force : Bool)
  deriving DecidableEq, Repr

/-- A command line that is understood. -/
structure Invocation where
  /-- Log more. -/
  verbose : Bool
  /-- The settings file, if one is named. -/
  config : Option String
  request : Request
  deriving DecidableEq, Repr

/-- The size a text stands for: decimal digits, perhaps after a plus sign. -/
def Size.ofText? (text : String) : Option Nat :=
  let digits := match text.toList with
    | '+' :: cs => cs
    | cs => cs
  if digits.isEmpty || !digits.all Char.isDigit then none
  else
    let n := digits.foldl (fun n c => 10 * n + (c.toNat - '0'.toNat)) 0
    if n < Size.bound then some n else none

namespace CommandLine

/-! ### Options -/

def isPath (value : String) : Bool := !value.isEmpty
def isSize (value : String) : Bool := (Size.ofText? value).isSome
def isFormat (value : String) : Bool := (Format.ofName? value).isSome

def file : OptionSpec := ⟨"file", some 'f', .value isPath⟩
def language : OptionSpec := ⟨"language", some 'l', .value fun _ => true⟩
def format : OptionSpec := ⟨"format", none, .value isFormat⟩
def line : OptionSpec := ⟨"line", some 'L', .value isSize⟩
def column : OptionSpec := ⟨"column", some 'C', .value isSize⟩
def path : OptionSpec := ⟨"path", some 'p', .value isPath⟩
def threads : OptionSpec := ⟨"threads", some 't', .value isSize⟩
def force : OptionSpec := ⟨"force", none, .flag⟩
def verbose : OptionSpec := ⟨"verbose", some 'v', .flag⟩
def config : OptionSpec := ⟨"config", some 'c', .value isPath⟩
def version : OptionSpec := ⟨"version", some 'V', .version⟩

/-- The options that can stand before or after the word for the request. -/
def shared : List OptionSpec := [verbose, config]

/-- The options of a request. -/
def optionsOf? : String → Option (List OptionSpec)
  | "render" => some [file, language, format]
  | "lookup" => some [file, line, column, language]
  | "stats" => some [path, threads, format]
  | "languages" => some []
  | "init" => some [force]
  | _ => none

/-! ### Requests -/

/-- An option that must be given. -/
def required (o : Options) (s : OptionSpec) : Except Halt String :=
  match o.get? s.long with
  | some value => .ok value
  | none => .error .misuse

/-- The size that is the value of an option. -/
def size? (o : Options) (s : OptionSpec) : Option Nat := (o.get? s.long).bind Size.ofText?

/-- The format that is the value of the option for it. -/
def format? (o : Options) : Option Format := (o.get? format.long).bind Format.ofName?

/-- The request of a word and its options. -/
def request (word : String) (o : Options) : Except Halt Request :=
  match word with
  | "render" => do return .render (← required o file) (o.get? language.long) (format? o)
  | "lookup" => do
      let name ← required o file
      match size? o line with
      | none => .error .misuse
      | some n => return .lookup name n ((size? o column).getD 1) (o.get? language.long)
  | "stats" => .ok (.stats (o.get? path.long) (size? o threads) (format? o))
  | "languages" => .ok .languages
  | "init" => .ok (.init (o.has force.long))
  | _ => .error .misuse

/-- The invocation a command line stands for. Of two settings files the one named after
the word for the request counts. -/
def parse (arguments : List String) : Except Halt Invocation := do
  match ← Options.read (version :: shared) {} arguments with
  | (_, []) => .error .misuse
  | (before, word :: rest) =>
      match optionsOf? word with
      | none => .error .misuse
      | some specs =>
          match ← Options.read (specs ++ shared) {} rest with
          | (_, _ :: _) => .error .misuse
          | (after, []) =>
              return {
                verbose := before.has verbose.long || after.has verbose.long
                config := (after.get? config.long).orElse fun _ => before.get? config.long
                request := ← request word after }

end CommandLine

end NameBinding
