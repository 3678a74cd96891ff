/-!
# Patterns of bytes

Regular expressions over bytes in which only single bytes are repeated. A pattern
matches a text as a whole; matching takes one derivative for each byte.

* `ByteSet` — some bytes, given by intervals.
* `Pattern.derive` — what has to follow a byte.
* `Pattern.accepts` — does a pattern match a whole text?
-/

namespace NameBinding

/-- The bytes in some closed intervals, or those in none of them. Separators between
the parts of a path can be left out of either. -/
structure ByteSet where
  intervals : List (UInt8 × UInt8)
  negated : Bool := false
  withoutSeparator : Bool := false
  deriving DecidableEq, Repr

namespace ByteSet

/-- The byte that divides the parts of a path. -/
def separator : UInt8 := 0x2F

/-- Is a byte in the set? -/
def contains (s : ByteSet) (b : UInt8) : Bool :=
  (s.intervals.any fun i => i.1 ≤ b && b ≤ i.2) != s.negated &&
    !(s.withoutSeparator && b == separator)

/-- A single byte. -/
def single (b : UInt8) : ByteSet := { intervals := [(b, b)] }

/-- All bytes. -/
def all : ByteSet := { intervals := [], negated := true }

/-- All bytes but the separator. -/
def inner : ByteSet := { intervals := [], negated := true, withoutSeparator := true }

end ByteSet

/-- A pattern of bytes. -/
inductive Pattern where
  /-- Matches nothing. -/
  | never
  /-- Matches the empty text. -/
  | empty
  /-- Matches one byte of a set. -/
  | one (set : ByteSet)
  /-- Matches any number of bytes of a set. -/
  | many (set : ByteSet)
  /-- One pattern after the other. -/
  | seq (first second : Pattern)
  /-- One pattern or the other. -/
  | either (left right : Pattern)
  deriving DecidableEq, Repr

namespace Pattern

/-- Does a pattern match the empty text? -/
def acceptsEmpty : Pattern → Bool
  | .never | .one _ => false
  | .empty | .many _ => true
  | .seq p q => p.acceptsEmpty && q.acceptsEmpty
  | .either p q => p.acceptsEmpty || q.acceptsEmpty

/-- One pattern after the other, simplified. -/
def followedBy (p q : Pattern) : Pattern :=
  match p, q with
  | .never, _ | _, .never => .never
  | .empty, q => q
  | p, q => .seq p q

/-- Is a pattern one of the alternatives of another one? -/
def hasBranch (p : Pattern) : Pattern → Bool
  | .either q r => p == q || hasBranch p r
  | q => p == q

/-- One pattern or the other, simplified: every alternative is listed once. -/
def orElse : Pattern → Pattern → Pattern
  | .never, q => q
  | .either p₁ p₂, q => p₁.orElse (p₂.orElse q)
  | p, q => if q == .never then p else if hasBranch p q then q else .either p q

/-- What has to follow a byte. -/
def derive (b : UInt8) : Pattern → Pattern
  | .never | .empty => .never
  | .one s => if s.contains b then .empty else .never
  | .many s => if s.contains b then .many s else .never
  | .seq p q =>
      let later := (p.derive b).followedBy q
      if p.acceptsEmpty then later.orElse (q.derive b) else later
  | .either p q => (p.derive b).orElse (q.derive b)

/-- Does a pattern match a whole text? -/
def accepts (p : Pattern) (text : List UInt8) : Bool :=
  (text.foldl (fun p b => p.derive b) p).acceptsEmpty

/-- A pattern for one text only. -/
def ofBytes (bytes : List UInt8) : Pattern :=
  bytes.foldr (fun b p => (one (.single b)).followedBy p) .empty

end Pattern

end NameBinding
