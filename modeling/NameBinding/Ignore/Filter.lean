import NameBinding.Files.Basic
import NameBinding.Ignore.Rule
import NameBinding.Terminal.Output

/-!
# The filter of a source tree

Files that are built, fetched or generated are no sources. The rules of the tree's
own ignore file come first, then the usual ones, then those of the settings, so that
later ones can take back what earlier ones say.

* `TreeFilter.make` — the filter of a tree.
* `TreeFilter.ignores` — does it leave out a path?
-/

namespace NameBinding

/-- The rules for the paths below a directory. -/
structure TreeFilter where
  /-- The directory, without `./` before it. -/
  root : List Char
  rules : List IgnoreRule

namespace TreeFilter

/-- The rules that hold for every tree. -/
def usualLines : List String :=
  ["target/", "node_modules/", "venv/", ".venv/", "vendor/", "dist/", "build/", "out/",
    "__pycache__/", ".git/", ".vscode/", ".idea/", "*.min.js", "*.bundle.js", "*_pb2.py",
    "*.pb.go"]

/-- The rules of some lines; those that are no rules are passed over. -/
def rulesOf (lines : List String) : List IgnoreRule :=
  lines.filterMap fun line =>
    match IgnoreRule.ofLine line with
    | .ok rule => rule
    | .error _ => none

/-- A path without `./` before it. -/
def dropCurrent : List Char → List Char
  | '.' :: '/' :: cs => cs
  | cs => cs

/-- The filter of the tree below `root`, with further rules. -/
def make (files : Files) (root : String) (excludes : List String) : TreeFilter where
  root := dropCurrent root.toList
  rules :=
    (match files.readBytes (Path.join root ".ignore") with
      | .ok content => IgnoreRule.ofContent content
      | .error _ => []) ++ rulesOf usualLines ++ rulesOf excludes

/-- The warnings about further rules that are none. -/
def warnings (excludes : List String) : List Output :=
  excludes.filterMap fun line =>
    match IgnoreRule.ofLine line with
    | .ok _ => none
    | .error flaw =>
        some (.log .warn s!"ignoring invalid exclude pattern `{line}`: {flaw.message}")

/-- The path seen from the root. A path without a slash stays as it is. -/
def relative (f : TreeFilter) (path : String) : String :=
  let cs := dropCurrent path.toList
  if f.root != ['.'] && cs.contains '/' && f.root.isPrefixOf cs then
    match cs.drop f.root.length with
    | '/' :: rest => String.ofList rest
    | rest => String.ofList rest
  else String.ofList cs

/-- Does the filter leave out a path? -/
def ignores (f : TreeFilter) (path : String) (isDirectory : Bool) : Bool :=
  IgnoreRule.verdict f.rules (f.relative path) isDirectory == .ignored

end TreeFilter

end NameBinding
