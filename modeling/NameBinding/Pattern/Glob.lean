import NameBinding.Pattern.Basic

/-!
# Globs

The patterns of ignore files: `?` and `*` stay within one part of a path, `**` as a
whole part stands for any number of parts, `[…]` is a set of characters, braces hold a
choice, and a backslash takes the meaning from the next character.

* `Glob.Token` — the pieces of a glob.
* `Glob.parse` — the pieces a text consists of.
* `Glob.pattern` — the pattern of bytes a glob stands for.
-/

namespace NameBinding
namespace Glob

/-- Why a text is not a glob. -/
inductive Flaw where
  /-- An interval of characters whose end comes before its start. -/
  | reversedRange (first last : Char)
  /-- A choice is closed that was not opened. -/
  | unopenedChoice
  /-- A choice is not closed. -/
  | unclosedChoice
  /-- Nothing follows a backslash. -/
  | danglingBackslash
  deriving DecidableEq, Repr

def Flaw.message : Flaw → String
  | .reversedRange first last => s!"invalid range; '{first}' > '{last}'"
  | .unopenedChoice =>
      "unopened alternate group; missing '\x7b' (maybe escape '\x7d' with '[\x7d]'?)"
  | .unclosedChoice =>
      "unclosed alternate group; missing '\x7d' (maybe escape '\x7b' with '[\x7b]'?)"
  | .danglingBackslash => "dangling '\\'"

/-- A piece of a glob. -/
inductive Token where
  | literal (c : Char)
  /-- One byte within a part. -/
  | any
  /-- Any number of bytes within a part. -/
  | zeroOrMore
  /-- Any number of parts at the start, or none. -/
  | leadingParts
  /-- Everything below. -/
  | trailingParts
  /-- Any number of parts between two others, or none. -/
  | innerParts
  /-- A character of some intervals, or of none of them. -/
  | charSet (negated : Bool) (ranges : List (Char × Char))
  | choice (branches : List (List Token))

/-! ### Sets of characters -/

/-- What stands after an opening bracket. -/
inductive SetScan where
  /-- A set, and the number of characters it is written with. -/
  | closed (ranges : List (Char × Char)) (length : Nat)
  | unclosed
  | reversed (first last : Char)

/-- Read the characters of a set. A closing bracket or a hyphen at the start stands for
itself, and so does a hyphen at the end. -/
def scanSet (first inRange : Bool) (ranges : List (Char × Char)) (length : Nat) :
    List Char → SetScan
  | [] => .unclosed
  | c :: cs =>
      if c == ']' && !first then
        .closed (if inRange then ('-', '-') :: ranges else ranges).reverse (length + 1)
      else if inRange then
        match ranges with
        | (a, _) :: rest =>
            if c < a then .reversed a c
            else scanSet false false ((a, c) :: rest) (length + 1) cs
        | [] => scanSet false false [(c, c)] (length + 1) cs
      else if c == '-' && !first then scanSet false true ranges (length + 1) cs
      else scanSet false false ((c, c) :: ranges) (length + 1) cs

/-- Read a set after its opening bracket. -/
def scanNegatable (cs : List Char) : Bool × SetScan :=
  match cs with
  | '!' :: rest | '^' :: rest => (true, scanSet true false [] 1 rest)
  | _ => (false, scanSet true false [] 0 cs)

/-! ### Reading -/

/-- A glob that is being read. -/
structure Draft where
  /-- The pieces of the branch that is being read, last first. -/
  current : List Token := []
  /-- The choices that are open, innermost first: their earlier branches, last first, and
  the pieces before them, last first. -/
  opened : List (List (List Token) × List Token) := []
  /-- An opening bracket that nothing closes was met, so brackets stand for themselves. -/
  plainBrackets : Bool := false

namespace Draft

/-- Add a piece. -/
def push (d : Draft) (t : Token) : Draft := { d with current := t :: d.current }

/-- Start a choice. -/
def openChoice (d : Draft) : Draft :=
  { d with current := [], opened := ([], d.current) :: d.opened }

/-- A comma divides the branches of a choice; elsewhere it stands for itself. -/
def comma (d : Draft) : Draft :=
  match d.opened with
  | [] => d.push (.literal ',')
  | (branches, before) :: rest =>
      { d with current := [], opened := (d.current.reverse :: branches, before) :: rest }

/-- End a choice. -/
def closeChoice (d : Draft) : Except Flaw Draft :=
  match d.opened with
  | [] => .error .unopenedChoice
  | (branches, before) :: rest =>
      .ok { d with
        current := .choice (d.current.reverse :: branches).reverse :: before
        opened := rest }

/-- Replace the piece before a double star by one that takes in its separator. -/
def absorb (d : Draft) (atEnd : Bool) : Draft :=
  match d.current with
  | .leadingParts :: _ | .trailingParts :: _ => d
  | _ :: rest =>
      { d with current := (if atEnd then .trailingParts else .innerParts) :: rest }
  | [] => d

/-- Take in two stars, given the character before them and the one after them. The
number says how many characters after the first star are used up. Only as a whole part
do two stars mean more than one. -/
def doubleStar (d : Draft) (before after : Option Char) : Draft × Nat :=
  let plain := (d.push .zeroOrMore |>.push .zeroOrMore, 1)
  if d.current.isEmpty then
    match after with
    | none => (d.push .leadingParts, 1)
    | some '/' => (d.push .leadingParts, 2)
    | some _ => plain
  else if before != some '/' && (d.opened.isEmpty || (before != some ',' && before != some '\x7b'))
  then plain
  else
    match after with
    | none => (d.absorb true, 1)
    | some '/' => (d.absorb false, 2)
    | some c => if !d.opened.isEmpty && (c == ',' || c == '\x7d') then (d.absorb true, 1) else plain

end Draft

/-- Read a glob. The next `skip` characters are used up already; `before` is the
character before the rest. -/
def parseFrom (skip : Nat) (before : Option Char) (d : Draft) : List Char → Except Flaw Draft
  | [] => .ok d
  | c :: cs =>
      match skip with
      | k + 1 => parseFrom k (some c) d cs
      | 0 =>
          match c with
          | '?' => parseFrom 0 (some c) (d.push .any) cs
          | '*' =>
              match cs with
              | '*' :: rest =>
                  let (d', used) := d.doubleStar before rest.head?
                  parseFrom used (some c) d' cs
              | _ => parseFrom 0 (some c) (d.push .zeroOrMore) cs
          | '[' =>
              if d.plainBrackets then parseFrom 0 (some c) (d.push (.literal c)) cs
              else
                match scanNegatable cs with
                | (negated, .closed ranges length) =>
                    parseFrom length (some c) (d.push (.charSet negated ranges)) cs
                | (_, .unclosed) =>
                    parseFrom 0 (some c) { d.push (.literal c) with plainBrackets := true } cs
                | (_, .reversed first last) => .error (.reversedRange first last)
          | '\x7b' => parseFrom 0 (some c) d.openChoice cs
          | '\x7d' => do parseFrom 0 (some c) (← d.closeChoice) cs
          | ',' => parseFrom 0 (some c) d.comma cs
          | '\\' =>
              match cs with
              | [] => .error .danglingBackslash
              | e :: _ => parseFrom 1 (some c) (d.push (.literal e)) cs
          | _ => parseFrom 0 (some c) (d.push (.literal c)) cs

/-- The pieces of a glob. -/
def parse (text : List Char) : Except Flaw (List Token) := do
  let d ← parseFrom 0 none {} text
  if d.opened.isEmpty then return d.current.reverse else .error .unclosedChoice

/-! ### Meaning -/

/-- The bytes of a character. -/
def bytesOf (c : Char) : List UInt8 := (String.singleton c).toUTF8.toList

/-- The intervals of bytes for an interval of characters: those of single bytes, except
that the last byte of the first character and the first byte of the last one are the
ends of an interval. -/
def byteIntervals (range : Char × Char) : List (UInt8 × UInt8) :=
  let single (b : UInt8) : UInt8 × UInt8 := (b, b)
  if range.1 = range.2 then (bytesOf range.1).map single
  else
    match (bytesOf range.1).reverse, bytesOf range.2 with
    | low :: before, high :: after =>
        before.reverse.map single ++ (low, high) :: after.map single
    | _, _ => []

/-- The separator of paths. -/
def slash : Pattern := .one (.single ByteSet.separator)

mutual

/-- Is nothing written by a piece? -/
def Token.isVoid : Token → Bool
  | .choice branches => allVoid branches
  | _ => false

/-- Is nothing written by a sequence of pieces? -/
def isVoidSequence : List Token → Bool
  | [] => true
  | t :: ts => t.isVoid && isVoidSequence ts

/-- Is nothing written by any branch? -/
def allVoid : List (List Token) → Bool
  | [] => true
  | b :: bs => isVoidSequence b && allVoid bs

end

mutual

/-- The pattern of a piece. -/
def Token.pattern : Token → Pattern
  | .literal c => .ofBytes (bytesOf c)
  | .any => .one .inner
  | .zeroOrMore => .many .inner
  | .leadingParts => .either .empty (.either slash (.seq (.many .all) slash))
  | .trailingParts => .seq slash (.many .all)
  | .innerParts => .either slash (.seq slash (.seq (.many .all) slash))
  | .charSet negated ranges =>
      .one { intervals := ranges.flatMap byteIntervals, negated, withoutSeparator := true }
  | .choice branches => if allVoid branches then .empty else choicePattern branches

/-- The pattern of a sequence of pieces. -/
def sequencePattern : List Token → Pattern
  | [] => .empty
  | t :: ts => t.pattern.followedBy (sequencePattern ts)

/-- The pattern of the branches of a choice; empty branches do not count. -/
def choicePattern : List (List Token) → Pattern
  | [] => .never
  | b :: bs =>
      if isVoidSequence b then choicePattern bs
      else (sequencePattern b).orElse (choicePattern bs)

end

/-- The pattern of a glob; two stars alone stand for everything. -/
def pattern : List Token → Pattern
  | [.leadingParts] => .many .all
  | tokens => sequencePattern tokens

end Glob
end NameBinding
