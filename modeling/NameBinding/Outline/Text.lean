import NameBinding.Outline.Basic

/-!
# Outlines as text

A scope is written as nested brackets, four blanks a level, with a comma after
every entry. Imports and references are mentioned only where there are some.
-/

namespace NameBinding
namespace Outline

/-- The blanks before a line at a depth of nesting. -/
def indent (depth : Nat) : String := String.ofList (List.replicate (4 * depth) ' ')

/-- Written entries between brackets, one after the other. -/
def entries (depth : Nat) (items : List String) : String :=
  if items.isEmpty then "[],\n"
  else "[\n" ++ String.join (items.map fun t => indent (depth + 1) ++ t ++ ",\n") ++
    indent depth ++ "],\n"

/-- The references of a declaration. -/
def references (depth : Nat) (contexts : List String) : String :=
  if contexts.isEmpty then ""
  else s!"{indent depth}referenced in ({contexts.length}): [\n" ++
    String.join (contexts.map fun c => indent (depth + 1) ++ "`" ++ c ++ "`,\n") ++
    indent depth ++ "],\n"

end Outline

open Outline (indent)

def DefinitionOutline.text (depth : Nat) (d : DefinitionOutline) : String :=
  d.name ++ " \x7b\n" ++
    indent (depth + 1) ++ "kind: " ++ d.kind ++ ",\n" ++
    indent (depth + 1) ++ "context: " ++ d.context ++ ",\n" ++
    Outline.references (depth + 1) d.references ++ indent depth ++ "\x7d"

def ImportOutline.text (depth : Nat) (i : ImportOutline) : String :=
  i.name ++ " \x7b\n" ++
    indent (depth + 1) ++ "context: " ++ i.context ++ ",\n" ++
    Outline.references (depth + 1) i.references ++ indent depth ++ "\x7d"

namespace ScopeOutline

mutual

/-- A scope whose first line is already at `depth`. -/
def textAt (depth : Nat) : ScopeOutline → String
  | .mk _ definitions imports scopes =>
      "scope \x7b\n" ++
        indent (depth + 1) ++ "definitions: " ++
        Outline.entries (depth + 1) (definitions.map (·.text (depth + 2))) ++
        (if imports.isEmpty then ""
          else indent (depth + 1) ++ "imports: " ++
            Outline.entries (depth + 1) (imports.map (·.text (depth + 2)))) ++
        indent (depth + 1) ++ "child scopes: " ++
        Outline.entries (depth + 1) (textsAt (depth + 2) scopes) ++ indent depth ++ "\x7d"

/-- Several scopes, each on its own. -/
def textsAt (depth : Nat) : List ScopeOutline → List String
  | [] => []
  | o :: os => textAt depth o :: textsAt depth os

end

/-- The written form of an outline. -/
def text (o : ScopeOutline) : String := textAt 0 o ++ "\n"

end ScopeOutline

/-- The written outline of a whole graph. -/
def Graph.render (g : Graph) (source : String) (symbols : SymbolTable) : String :=
  (g.outline source symbols Graph.root).text

end NameBinding
