import NameBinding.Text.Lines
import NameBinding.Text.Width

/-!
# Tables

A table with rounded corners: a header, a line under it, and rows without lines
between them. Cells are left aligned with a blank on each side, and a cell of
several lines makes its row as many lines high.

* `Table.render` — the text of a table; a table without rows is empty.
-/

namespace NameBinding
namespace Table

/-- The lines of a cell. -/
def cellLines (cell : String) : List (List Char) := Text.split '\n' cell.toList

/-- The columns a cell needs. -/
def cellWidth (cell : String) : Nat :=
  ((cellLines cell).map Text.displayWidth).foldl max 0

/-- The columns each of the columns of a table needs. -/
def columnWidths (header : List String) (rows : List (List String)) : List Nat :=
  (List.range header.length).map fun k =>
    ((header :: rows).map fun row => cellWidth (row.getD k "")).foldl max 0

/-- A text filled up with blanks to a width. -/
def pad (width : Nat) (line : List Char) : String :=
  String.ofList (line ++ List.replicate (width - Text.displayWidth line) ' ')

/-- A horizontal line with the given corners and crossings. -/
def rule (left crossing right : String) (widths : List Nat) : String :=
  left ++ crossing.intercalate
    (widths.map fun w => String.ofList (List.replicate (w + 2) '─')) ++ right

/-- The lines of a row. -/
def rowLines (widths : List Nat) (row : List String) : List String :=
  let cells := row.map cellLines
  let height := (cells.map List.length).foldl max 0
  (List.range height).map fun k =>
    "│ " ++ " │ ".intercalate
      ((widths.zip cells).map fun (w, lines) => pad w (lines.getD k [])) ++ " │"

/-- The text of a table. -/
def render (header : List String) (rows : List (List String)) : String :=
  if rows.isEmpty then ""
  else
    let widths := columnWidths header rows
    "\n".intercalate <|
      [rule "╭" "┬" "╮" widths] ++ rowLines widths header ++ [rule "├" "┼" "┤" widths] ++
        rows.flatMap (rowLines widths) ++ [rule "╰" "┴" "╯" widths]

end Table
end NameBinding
