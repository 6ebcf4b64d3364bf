import Markbook.Text.Width

/-!
# Tables

A table of texts in a box, with a header.  A cell with line feeds takes several lines; every column
is as wide as its widest line.
-/

namespace Markbook

structure Table where
  header : List Text
  rows : List (List Text)
deriving Repr

namespace Table

/-- The lines of a cell.  There is always at least one. -/
def cellLines (cell : Text) : List Text := Text.pieces '\n' cell

def cellWidth (cell : Text) : Nat := ((cellLines cell).map Text.width).foldl max 0

/-- The column widths of rows, which are as many as the widths to begin with. -/
def widths (t : Table) : List Nat :=
  t.rows.foldl (fun l row ↦ l.zipWith max (row.map cellWidth)) (t.header.map cellWidth)

/-- Fills a line up with spaces. -/
def padded (width : Nat) (s : Text) : Text :=
  s ++ List.replicate (width - Text.width s) ' '

/-- One line of a row, from the lines of its cells. -/
def line (widths : List Nat) (cells : List Text) : Text :=
  let inner := Text.join [' '] ((widths.zip cells).map fun e ↦ ' ' :: padded e.1 e.2 ++ [' '])
  '│' :: inner ++ ['│']

/-- The lines of a row. -/
def rowLines (widths : List Nat) (row : List Text) : List Text :=
  let cells := row.map cellLines
  let height := (cells.map List.length).foldl max 0
  (List.range height).map fun i ↦ line widths (cells.map fun c ↦ c.getD i [])

/-- A rule from one edge of the box to the other. -/
def rule (left middle right : Char) (widths : List Nat) : Text :=
  let inner := widths.foldl (fun n w ↦ n + w + 2) 0 + (widths.length - 1)
  left :: List.replicate inner middle ++ [right]

/-- The text of a table. -/
def text (t : Table) : Text :=
  let w := t.widths
  Text.unlines <| [rule '┌' '─' '┐' w] ++ rowLines w t.header ++ [rule '╞' '═' '╡' w] ++
    t.rows.flatMap (rowLines w) ++ [rule '└' '─' '┘' w]

end Table

end Markbook
