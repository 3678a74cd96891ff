import NameBinding.Fault
import NameBinding.Text.Offset

/-!
# Points and spans of a source text

A `Point` is a position given three ways at once: its byte offset, its row and
its column in bytes, all counted from zero. A `Span` is a half-open interval
between two points; containment and size look at the byte offsets only.

* `Point.ofByte` — the point at an offset, which is clamped to the text.
* `Span.make`, `Span.ofBytes` — spans whose start is not after their end.
* `Span.contains`, `Span.coversByte`, `Span.size`, `Span.slice?`.
* Points are ordered by byte, row, column; spans by start, then end.
-/

namespace NameBinding

/-- A position in a source text. -/
structure Point where
  /-- Byte offset from the start of the text. -/
  byte : Nat
  /-- Lines before the position. -/
  row : Nat
  /-- Bytes before the position in its line. -/
  column : Nat
  deriving DecidableEq, Repr, Inhabited

namespace Point

/-- The start of every text. -/
def zero : Point := ⟨0, 0, 0⟩

/-- The point at offset `byte` of `source`, or at its end if that comes first. -/
def ofByte (source : String) (byte : Nat) : Point :=
  let cs := source.toList
  let b := min byte (Text.byteLength cs)
  ⟨b, ((Text.newlines cs).filter (· < b)).length, b - Text.lineStart cs b⟩

/-- Points are ordered by byte, then row, then column. -/
protected def compare (p q : Point) : Ordering :=
  (Ord.compare p.byte q.byte).then
    ((Ord.compare p.row q.row).then (Ord.compare p.column q.column))

instance : Ord Point := ⟨Point.compare⟩

end Point

/-- An interval of source text: from `start` up to, but without, `stop`. -/
structure Span where
  start : Point
  stop : Point
  deriving DecidableEq, Repr, Inhabited

namespace Span

/-- The empty span at the start of every text. -/
def zero : Span := ⟨.zero, .zero⟩

/-- The span between two points, of which the first must not lie after the second. -/
def make (start stop : Point) : Except Fault Span :=
  if start.byte ≤ stop.byte then .ok ⟨start, stop⟩ else .error .reversedSpan

/-- The span between two offsets of a text, each clamped to the text. -/
def ofBytes (source : String) (start stop : Nat) : Except Fault Span :=
  make (.ofByte source start) (.ofByte source stop)

/-- The span of a whole text. -/
def ofText (source : String) : Span :=
  ⟨.ofByte source 0, .ofByte source (Text.byteLength source.toList)⟩

/-- Does `s` enclose `t`? -/
def contains (s t : Span) : Bool :=
  s.start.byte ≤ t.start.byte && t.stop.byte ≤ s.stop.byte

/-- Does `s` cover the byte at offset `byte`? -/
def coversByte (s : Span) (byte : Nat) : Bool :=
  s.start.byte ≤ byte && byte < s.stop.byte

/-- The number of bytes of a span; a span taken as given may be reversed. -/
def size (s : Span) : Except Fault Nat := Size.sub s.stop.byte s.start.byte

/-- The text of a span, if the span cuts the source between characters. -/
def slice? (s : Span) (source : String) : Option String :=
  (Text.slice? source.toList s.start.byte s.stop.byte).map String.ofList

/-- The written form of a span: its offsets as a half-open interval. -/
def text (s : Span) : String := s!"[{s.start.byte}, {s.stop.byte})"

/-- Spans are ordered by start, then end. -/
protected def compare (s t : Span) : Ordering :=
  (Ord.compare s.start t.start).then (Ord.compare s.stop t.stop)

instance : Ord Span := ⟨Span.compare⟩

/-- The spans in increasing order. -/
def sort (spans : List Span) : List Span :=
  spans.mergeSort fun s t => (Ord.compare s t).isLE

end Span

end NameBinding
