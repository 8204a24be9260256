import LogSweep.Text.Width

/-!
# Tables

Tables drawn with line characters. Every cell is aligned to the left with a blank on both sides, and
a column is as wide as its widest line. A newline in a cell starts another line of its row.
-/

namespace LogSweep.Text

/-- The characters of one horizontal rule. -/
structure Rule where
  left : Char
  line : Char
  cross : Char
  right : Char
  deriving DecidableEq, Repr, Inhabited

/-- How a table is drawn. -/
structure TableStyle where
  top : Rule
  /-- The rule below the header. -/
  header : Rule
  /-- The rule between two rows. -/
  row : Rule
  bottom : Rule
  /-- The border of a line of cells. -/
  border : Char
  /-- What stands between two cells. -/
  divider : Char
  deriving DecidableEq, Repr, Inhabited

/-- Box-drawing characters, with dashed rules inside. -/
def TableStyle.box : TableStyle where
  top := ⟨'┌', '─', '┬', '┐'⟩
  header := ⟨'╞', '═', '╪', '╡'⟩
  row := ⟨'├', '╌', '┼', '┤'⟩
  bottom := ⟨'└', '─', '┴', '┘'⟩
  border := '│'
  divider := '┆'

/-- Plain ASCII characters. -/
def TableStyle.plain : TableStyle where
  top := ⟨'+', '-', '+', '+'⟩
  header := ⟨'+', '=', '=', '+'⟩
  row := ⟨'|', '-', '+', '|'⟩
  bottom := ⟨'+', '-', '+', '+'⟩
  border := '|'
  divider := '|'

/-- The lines of a cell. -/
def cellLines (cell : String) : List String :=
  (cell.toList.splitOn '\n').map String.ofList

/-- The width of a cell's widest line. -/
def cellWidth (cell : String) : Nat :=
  (cellLines cell).foldl (fun n line => max n (width line)) 0

/-- The widths of the columns that some rows need. -/
def columnWidths (rows : List (List String)) : List Nat :=
  rows.foldl (fun widths row => (row.map cellWidth).zipWith max widths) <|
    (rows.head?.getD []).map fun _ => 0

def Rule.draw (r : Rule) (widths : List Nat) : String :=
  let columns := widths.map fun w => String.ofList (List.replicate (w + 2) r.line)
  String.singleton r.left ++ String.intercalate (String.singleton r.cross) columns ++
    String.singleton r.right

/-- A line of a cell, filled up to the width of its column. -/
def padCell (w : Nat) (line : String) : String :=
  " " ++ line ++ String.ofList (List.replicate (w - width line) ' ') ++ " "

/-- The lines that a row of cells takes. -/
def TableStyle.drawRow (style : TableStyle) (widths : List Nat) (row : List String) : List String :=
  let cells := row.map cellLines
  let height := cells.foldl (fun n lines => max n lines.length) 0
  (List.range height).map fun i =>
    let line := (cells.zip widths).map fun (lines, w) => padCell w (lines[i]?.getD "")
    String.singleton style.border ++ String.intercalate (String.singleton style.divider) line ++
      String.singleton style.border

/-- Draws a table, its lines joined by newlines. -/
def TableStyle.draw (style : TableStyle) (header : List String) (rows : List (List String)) :
    String :=
  let widths := columnWidths (header :: rows)
  let body := rows.map (style.drawRow widths)
  let between := body.intersperse [style.row.draw widths]
  String.intercalate "\n" <|
    style.top.draw widths :: style.drawRow widths header ++ [style.header.draw widths] ++
      between.flatten ++ [style.bottom.draw widths]

end LogSweep.Text
