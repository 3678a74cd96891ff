import NameBinding.Node

/-!
# Styles

How text is highlighted on a terminal that shows colours. A style has a colour and
an effect; a plain style leaves the text alone.

* `Style.paint` — text in a style.
* `Theme` — a style for each thing that is shown.
* `Theme.node` — the style of the name of a node.
-/

namespace NameBinding

/-- The foreground colours in use. -/
inductive Colour where
  | red | green | yellow | blue | magenta | cyan | white
  deriving DecidableEq, Repr

/-- The number of a colour in a control sequence. -/
def Colour.code : Colour → Nat
  | .red => 31
  | .green => 32
  | .yellow => 33
  | .blue => 34
  | .magenta => 35
  | .cyan => 36
  | .white => 37

/-- The effects in use. -/
inductive Effect where
  | bold | dimmed | italic
  deriving DecidableEq, Repr

/-- The number of an effect in a control sequence. -/
def Effect.code : Effect → Nat
  | .bold => 1
  | .dimmed => 2
  | .italic => 3

/-- How a piece of text is shown. -/
structure Style where
  colour : Option Colour := none
  effect : Option Effect := none
  deriving DecidableEq, Repr

/-- The codes of a style: the colour comes before the effect. -/
def Style.codes (s : Style) : List Nat :=
  (s.colour.map Colour.code).toList ++ (s.effect.map Effect.code).toList

/-- The control sequence that switches a style on. -/
def Style.opening (s : Style) : String :=
  if s.codes.isEmpty then "" else "\x1b[" ++ ";".intercalate (s.codes.map Nat.repr) ++ "m"

/-- The control sequence that switches a style off. -/
def Style.closing (s : Style) : String := if s.codes.isEmpty then "" else "\x1b[0m"

/-- The text in a style. -/
def Style.paint (s : Style) (text : String) : String := s.opening ++ text ++ s.closing

/-- A style for each thing that is shown. -/
structure Theme where
  header : Style := {}
  success : Style := {}
  error : Style := {}
  warn : Style := {}
  info : Style := {}
  dim : Style := {}
  scope : Style := {}
  definition : Style := {}
  imported : Style := {}
  reference : Style := {}
  unresolved : Style := {}
  deriving DecidableEq, Repr

namespace Theme

/-- Nothing is highlighted. -/
def plain : Theme := {}

/-- The theme of a terminal with colours. -/
def colored : Theme where
  header := ⟨some .cyan, some .bold⟩
  success := ⟨some .green, some .bold⟩
  error := ⟨some .red, some .bold⟩
  warn := ⟨some .yellow, some .bold⟩
  info := ⟨some .magenta, none⟩
  dim := ⟨some .white, some .dimmed⟩
  scope := ⟨some .white, some .dimmed⟩
  definition := ⟨some .blue, some .bold⟩
  imported := ⟨some .cyan, some .bold⟩
  reference := ⟨some .green, none⟩
  unresolved := ⟨some .yellow, some .italic⟩

/-- All styles of a theme. -/
def styles (t : Theme) : List Style :=
  [t.header, t.success, t.error, t.warn, t.info, t.dim, t.scope, t.definition, t.imported,
    t.reference, t.unresolved]

/-- The style of the name of a node; only for a reference it matters whether it is
bound. -/
def node (t : Theme) (bound : Bool) : Node → Style
  | .scope _ => t.scope
  | .definition .. => t.definition
  | .imported .. => t.imported
  | .reference .. => if bound then t.reference else t.unresolved

end Theme

end NameBinding
