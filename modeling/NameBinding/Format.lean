import NameBinding.Settings
import NameBinding.Terminal.Output

/-!
# Formats of results

* `Format.pick` — the format that the command line asks for, or else the settings.
-/

namespace NameBinding

/-- How a result is printed. -/
inductive Format where
  | text
  | json
  deriving DecidableEq, Repr

namespace Format

/-- The word for a format. -/
def name : Format → String
  | .text => "text"
  | .json => "json"

/-- The format of a word. -/
def ofName? : String → Option Format
  | "text" => some .text
  | "json" => some .json
  | _ => none

/-- The format to print in. -/
def pick (flag : Option Format) (settings : Settings) : Format :=
  (flag.orElse fun _ => settings.format.bind ofName?).getD .text

/-- The warning about an unknown format in the settings, if they are asked. -/
def warnings (flag : Option Format) (settings : Settings) : List Output :=
  match flag, settings.format with
  | none, some word =>
      if (ofName? word).isSome then []
      else [.log .warn s!"unknown format `{word}` in config, using text"]
  | _, _ => []

end Format

end NameBinding
