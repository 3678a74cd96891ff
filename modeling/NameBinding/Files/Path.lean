import NameBinding.Text.Lines

/-!
# Paths

A path is a text whose parts are divided by slashes. Empty parts and inner `.` parts
mean nothing. The names of files and directories are texts of Unicode characters, too,
so every path can be shown as it is, and no two paths are shown alike.

* `Path.components` — the parts that mean something.
* `Path.ancestors` — the paths above a path.
* `Path.ending` — whether a path asks for a directory.
* `Path.extension?` — what follows the last dot of the last part.
* `Path.join`, `Path.below` — a path below another one.
* `Path.strip?` — a path seen from another one.
-/

namespace NameBinding
namespace Path

/-- A part of a path. -/
inductive Component where
  /-- The start of an absolute path. -/
  | root
  /-- A leading `.`. -/
  | current
  /-- The directory above, written `..`. -/
  | parent
  | named (name : String)
  deriving DecidableEq, Repr

/-- The component of a part that is not the first; empty parts and `.` mean none. -/
def component? (part : List Char) : Option Component :=
  match part with
  | [] | ['.'] => none
  | ['.', '.'] => some .parent
  | _ => some (.named (String.ofList part))

/-- The components of a path. -/
def components (path : String) : List Component :=
  match Text.split '/' path.toList with
  | [] => []
  | [[]] => []
  | [] :: parts => .root :: parts.filterMap component?
  | ['.'] :: parts => .current :: parts.filterMap component?
  | parts => parts.filterMap component?

/-- The path with the given parts: the first one and, from the last to the second, the
others. Parts at its end that mean nothing are left out. -/
def ofParts (first : List Char) (rest : List (List Char)) : String :=
  match (rest.dropWhile fun part => (component? part).isNone).reverse with
  | [] => if first.isEmpty then "/" else String.ofList first
  | parts => String.ofList (['/'].intercalate (first :: parts))

/-- The paths above the one with the given parts, in the order of `ofParts`. -/
def ancestorsFrom (first : List Char) : List (List Char) → List String
  | [] => if first.isEmpty then [] else [""]
  | part :: rest =>
      if (component? part).isNone then ancestorsFrom first rest
      else ofParts first rest :: ancestorsFrom first rest

/-- The paths above a path, the nearest one first: the path without its last component,
that one without its last, and so on. -/
def ancestors (path : String) : List String :=
  match Text.split '/' path.toList with
  | [] => []
  | first :: rest => ancestorsFrom first rest.reverse

/-- Does a path lead through `base` to something below it? -/
def isBelow (base path : String) : Bool :=
  (components base).isPrefixOf (components path) && components path != components base

/-- How a path ends. -/
inductive Ending where
  | plain
  /-- In a slash. -/
  | slash
  /-- In a part `.` that is not the only one. -/
  | dot
  deriving DecidableEq, Repr

/-- How a path ends; slashes after a last part `.` do not count. -/
def ending (path : String) : Ending :=
  match (Text.split '/' path.toList).reverse.dropWhile List.isEmpty with
  | ['.'] :: _ :: _ => .dot
  | _ => if path.toList.getLast? = some '/' then .slash else .plain

/-- The name of the file or directory a path leads to. -/
def fileName? (path : String) : Option String :=
  match (components path).getLast? with
  | some (.named name) => some name
  | _ => none

/-- The extension of a file name: what follows its last dot, unless that dot is the
first character. -/
def extensionOf? (name : List Char) : Option (List Char) :=
  if '.' ∈ name then
    let after := (name.reverse.takeWhile (· != '.')).reverse
    if name.length = after.length + 1 then none else some after
  else none

/-- The extension of a path. -/
def extension? (path : String) : Option String :=
  (fileName? path).bind fun name => (extensionOf? name.toList).map String.ofList

/-- The path `rest` seen from `base`. -/
def join (base rest : String) : String :=
  if rest.toList.head? = some '/' || base.isEmpty then rest
  else if base.toList.getLast? = some '/' then base ++ rest
  else base ++ "/" ++ rest

/-- The path of the file that is reached from `base` through `names`. -/
def below (base : String) (names : List String) : String :=
  if names.isEmpty then base else join base ("/".intercalate names)

/-- The written form of a component. -/
def Component.text : Component → String
  | .root => "/"
  | .current => "."
  | .parent => ".."
  | .named name => name

/-- The path seen from `base`, if it leads there through `base`. -/
def strip? (base path : String) : Option String :=
  let start := components base
  if start.isPrefixOf (components path) then
    some ("/".intercalate (((components path).drop start.length).map Component.text))
  else none

end Path
end NameBinding
