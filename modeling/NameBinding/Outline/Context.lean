import NameBinding.Span
import NameBinding.Text.Blank

/-!
# Context lines

A span is shown inside the line, or lines, it stands on, with a mark on each side
of it; the blanks around that text are left away.
-/

namespace NameBinding

/-- The mark on both sides of a span in its context. -/
def Span.fence : List Char := ['§']

/-- The source lines around a span with the span between two marks. Offsets outside
the source are moved to its end, and a part that cuts a character is left empty. -/
def Span.context (s : Span) (source : String) : String :=
  let cs := source.toList
  let len := Text.byteLength cs
  let start := min s.start.byte len
  let stop := max start (min s.stop.byte len)
  let before := Text.trimStart ((Text.slice? cs (Text.lineStart cs start) start).getD [])
  let text := (Text.slice? cs start stop).getD []
  let after := Text.trimEnd ((Text.slice? cs stop (Text.lineStop cs stop)).getD [])
  String.ofList (before ++ fence ++ text ++ fence ++ after)

end NameBinding
