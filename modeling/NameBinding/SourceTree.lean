import NameBinding.Ignore.Filter

/-!
# Source trees

The files below a directory, without those that ignore files or a filter leave out.

* `SourceTree.walk` — the files that the ignore files of the tree let through.
* `SourceTree.select` — those of them that a predicate lets through, in order. What is
  in a directory that is left out is left out too.
* `SourceTree.sources` — both.

Ignore files are `.ignore` and, within a repository, `.gitignore` and the list of the
repository itself. They count in their directory and everything below it; the nearest
one decides first. The directory where the walk starts is never left out.
-/

namespace NameBinding
namespace SourceTree

/-! ### Ignore files -/

/-- The rules of a file at a place. -/
def rulesAt (files : Files) (place : List String) : List IgnoreRule :=
  ((files.content? place).map IgnoreRule.ofContent).getD []

/-- The directories above a place, nearest first, each with the path from there. -/
def levels (place : List String) : List (List String × List String) :=
  (List.range place.length).reverse.map fun k => (place.take k, place.drop k)

/-- The verdict of the nearest directory that decides, given the ignore file of each. -/
def nearestVerdict (files : Files) (name : List String) (isDirectory : Bool) :
    List (List String × List String) → Verdict
  | [] => .undecided
  | (directory, path) :: rest =>
      (IgnoreRule.verdict (rulesAt files (directory ++ name)) ("/".intercalate path)
        isDirectory).orElse (nearestVerdict files name isDirectory rest)

/-- Does a directory hold a repository? -/
def holdsRepository (files : Files) (directory : List String) : Bool :=
  let place := directory ++ [".git"]
  files.isFile place || files.isDirectory place

/-- The levels within the nearest repository, if there is one. -/
def repositoryLevels (files : Files) :
    List (List String × List String) → List (List String × List String)
  | [] => []
  | level :: rest =>
      if holdsRepository files level.1 then [level]
      else
        match repositoryLevels files rest with
        | [] => []
        | inner => level :: inner

/-- What the ignore files say about a place. -/
def walkVerdict (files : Files) (place : List String) (isDirectory : Bool) : Verdict :=
  let ls := levels place
  let inner := repositoryLevels files ls
  (nearestVerdict files [".ignore"] isDirectory ls).orElse <|
    (nearestVerdict files [".gitignore"] isDirectory inner).orElse <|
      nearestVerdict files [".git", "info", "exclude"] isDirectory inner

/-- Do the ignore files let a file through? The file is given by the names that lead to
it from the place where the walk starts. -/
def isWalked (files : Files) (start names : List String) : Bool :=
  (List.range names.length).all fun k =>
    walkVerdict files (start ++ names.take (k + 1)) (k + 1 != names.length) != .ignored

/-- The files below a place, by the names that lead there. -/
def filesBelow (files : Files) (start : List String) : List (List String) :=
  files.entries.filterMap fun
    | (place, .file _) =>
        if start.isPrefixOf place && start.length < place.length then some (place.drop start.length)
        else none
    | (_, .directory) => none

/-- The files below a root that the ignore files let through. A file is its own only
source. -/
def walk (files : Files) (root : String) : Except FileProblem (List (List String)) := do
  let start ← files.resolve root
  if files.isFile start then return [[]]
  else if files.isDirectory start then return (filesBelow files start).filter (isWalked files start)
  else .error .notFound

/-! ### Selection -/

/-- Is a file left out, itself or one of its directories? They are asked from the file
upward as long as they are below the root. -/
def isLeftOut (ignored : String → Bool → Bool) (root file : String) : Bool :=
  ignored file false ||
    ((Path.ancestors file).takeWhile (Path.isBelow root)).any (ignored · true)

/-- Files are ordered by the names that lead to them, one after the other. -/
def comesBefore (a b : List String) : Bool := !decide (b < a)

/-- The paths of the files that are not left out, in order. -/
def select (ignored : String → Bool → Bool) (root : String) (found : List (List String)) :
    List String :=
  ((found.filter fun names => !isLeftOut ignored root (Path.below root names)).mergeSort
    comesBefore).map (Path.below root)

/-- The source files below a root. If there is nothing at the root there are none. -/
def sources (files : Files) (filter : TreeFilter) (root : String) : List String :=
  match walk files root with
  | .ok found => select filter.ignores root found
  | .error _ => []

/-- What the log tells about a walk. -/
def log (files : Files) (root : String) : List Output :=
  match walk files root with
  | .ok _ => []
  | .error problem =>
      [.log .debug <| s!"skipping unreadable entry: {root}: " ++
        s!"IO error for operation on {root}: {problem.message}"]

end SourceTree
end NameBinding
