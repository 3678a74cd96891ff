import NameBinding.Pattern.Glob
import NameBinding.Text.Blank
import NameBinding.Text.Lines

/-!
# Ignore rules

A rule is a line of an ignore file: a glob for paths below the directory of the
file. The last rule that matches a path decides about it.

* `IgnoreRule.ofLine` — the rule of a line, if it has one.
* `Verdict` — what rules say about a path.
* `IgnoreRule.verdict` — the verdict of a list of rules.
* `IgnoreRule.ofContent` — the rules of a file.
-/

namespace NameBinding

/-- What rules say about a path. -/
inductive Verdict where
  /-- No rule matches. -/
  | undecided
  | ignored
  /-- A rule takes the path back in. -/
  | kept
  deriving DecidableEq, Repr

/-- The first verdict, if it decides, or else the second. -/
def Verdict.orElse : Verdict → Verdict → Verdict
  | .undecided, v => v
  | v, _ => v

/-- A rule about paths. -/
structure IgnoreRule where
  pattern : Pattern
  /-- The rule takes paths back in. -/
  keeps : Bool
  directoriesOnly : Bool
  deriving DecidableEq, Repr

/-- Why a line is no rule: the line and what is wrong with its glob. -/
structure RuleFlaw where
  line : String
  flaw : Glob.Flaw
  deriving DecidableEq, Repr

def RuleFlaw.message (f : RuleFlaw) : String :=
  s!"error parsing glob '{f.line}': {f.flaw.message}"

namespace IgnoreRule

/-- Does a text end in another one? -/
def endsIn (ending cs : List Char) : Bool := ending.reverse.isPrefixOf cs.reverse

/-- The line without the blanks at its end, unless the last of them is escaped. -/
def trimLine (cs : List Char) : List Char :=
  if endsIn ['\\', ' '] cs then cs else Text.trimEnd cs

/-- Split off the mark of a rule that takes paths back in. -/
def splitKeep : List Char → Bool × List Char
  | '!' :: cs => (true, cs)
  | cs => (false, cs)

/-- Split off the mark of a rule about paths right below the directory. -/
def splitAnchor : List Char → Bool × List Char
  | '/' :: cs => (true, cs)
  | cs => (false, cs)

/-- Split off the mark of a rule about directories; an escape of it goes with it. -/
def splitDirectory (cs : List Char) : Bool × List Char :=
  match cs.reverse with
  | '/' :: '\\' :: rest => (true, rest.reverse)
  | '/' :: rest => (true, rest.reverse)
  | _ => (false, cs)

/-- The glob for whole paths. Without a slash in it, and not anchored, a glob is for
paths at any depth; one for everything in a directory is not for the directory. -/
def wholeGlob (anchored : Bool) (cs : List Char) : List Char :=
  let atAnyDepth := !anchored && !cs.contains '/' && cs != ['*', '*']
  let glob := if atAnyDepth then ['*', '*', '/'] ++ cs else cs
  if endsIn ['/', '*', '*'] glob then glob ++ ['/', '*'] else glob

/-- The rule of a line. Comments and empty lines are no rules. -/
def ofLine (text : String) : Except RuleFlaw (Option IgnoreRule) :=
  if text.toList.head? = some '#' then .ok none
  else
    let line := trimLine text.toList
    if line.isEmpty then .ok none
    else
      let (keeps, anchored, rest) : Bool × Bool × List Char :=
        match line with
        | '\\' :: '!' :: rest => (false, false, '!' :: rest)
        | '\\' :: '#' :: rest => (false, false, '#' :: rest)
        | _ =>
            let (keeps, rest) := splitKeep line
            let (anchored, rest) := splitAnchor rest
            (keeps, anchored, rest)
      let (directoriesOnly, rest) := splitDirectory rest
      match Glob.parse (wholeGlob anchored rest) with
      | .error flaw => .error ⟨String.ofList line, flaw⟩
      | .ok tokens => .ok (some ⟨Glob.pattern tokens, keeps, directoriesOnly⟩)

/-- Does a rule match a path? -/
def applies (r : IgnoreRule) (path : String) (isDirectory : Bool) : Bool :=
  (!r.directoriesOnly || isDirectory) && r.pattern.accepts path.toUTF8.toList

/-- The verdict of some rules: the last one that matches decides. -/
def verdict (rules : List IgnoreRule) (path : String) (isDirectory : Bool) : Verdict :=
  match rules.reverse.find? (·.applies path isDirectory) with
  | none => .undecided
  | some r => if r.keeps then .kept else .ignored

/-! ### Files -/

/-- The lines of a file, without their ends. -/
def splitLines : List UInt8 → List (List UInt8)
  | [] => []
  | b :: bs =>
      if b == 0x0A then [] :: splitLines bs
      else if b == 0x0D && bs.head? == some 0x0A then splitLines bs
      else
        match splitLines bs with
        | [] => [[b]]
        | line :: lines => (b :: line) :: lines

/-- The lines of a file up to the first one that is not text. -/
def textLines (content : ByteArray) : List String :=
  ((splitLines content.toList).map fun line => String.fromUTF8? ⟨line.toArray⟩)
    |>.takeWhile Option.isSome |>.filterMap id

/-- The lines with byte order marks at their very start removed. -/
def dropMarks : List String → List String
  | [] => []
  | line :: lines => String.ofList (line.toList.dropWhile (· == '\uFEFF')) :: lines

/-- The rules of a file; lines that are no rules are passed over. -/
def ofContent (content : ByteArray) : List IgnoreRule :=
  (dropMarks (textLines content)).filterMap fun line =>
    match ofLine line with
    | .ok rule => rule
    | .error _ => none

end IgnoreRule

end NameBinding
