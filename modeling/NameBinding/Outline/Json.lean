import NameBinding.Node.Json
import NameBinding.Outline.Basic

/-!
# Outlines as JSON
-/

namespace NameBinding

/-- A list of texts as a value. -/
def Json.strings (texts : List String) : Json := .array (texts.map .string)

def DefinitionOutline.toJson (d : DefinitionOutline) : Json :=
  .object [("name", .string d.name), ("kind", .string d.kind), ("context", .string d.context),
    ("range", d.span.toJson), ("references", .strings d.references)]

def ImportOutline.toJson (i : ImportOutline) : Json :=
  .object [("name", .string i.name), ("context", .string i.context),
    ("range", i.span.toJson), ("references", .strings i.references)]

namespace ScopeOutline

mutual

def toJson : ScopeOutline → Json
  | .mk span definitions imports scopes =>
      .object [("range", span.toJson),
        ("definitions", .array (definitions.map DefinitionOutline.toJson)),
        ("imports", .array (imports.map ImportOutline.toJson)),
        ("scopes", .array (toJsons scopes))]

def toJsons : List ScopeOutline → List Json
  | [] => []
  | o :: os => toJson o :: toJsons os

end

end ScopeOutline

end NameBinding
