import ProjectIndex.Text.Columns

/-!
# Grids

Texts in rows and columns, with lines around the cells.  Every column is as wide as its widest line,
with a blank on either side, and every row is as high as its highest cell.
-/

namespace ProjectIndex.CommandLine

structure Grid where
  header : List String
  rows : List (List String)
  deriving DecidableEq, Repr

namespace Grid

/-- A horizontal line: its ends, what it is made of, and what stands between columns. -/
structure Rule where
  left : String
  fill : String
  cross : String
  right : String

/-- The lines of a grid: above it, below its header, between rows, below it. -/
def top : Rule := ⟨"┌", "─", "┬", "┐"⟩

def belowHeader : Rule := ⟨"╞", "═", "╪", "╡"⟩

def between : Rule := ⟨"├", "╌", "┼", "┤"⟩

def bottom : Rule := ⟨"└", "─", "┴", "┘"⟩

def Rule.draw (rule : Rule) (widths : List Nat) : String :=
  let pieces := widths.map fun w => String.join (List.replicate (w + 2) rule.fill)
  rule.left ++ String.intercalate rule.cross pieces ++ rule.right

def cellLines (cell : String) : List String :=
  cell.splitOn "\n"

def cellWidth (cell : String) : Nat :=
  (cellLines cell).foldl (fun w line => max w (Columns.ofString line)) 0

def widths (t : Grid) : List Nat :=
  t.rows.foldl
    (fun ws row => ws.zipWith max (row.map cellWidth))
    (t.header.map cellWidth)

def pad (width : Nat) (line : String) : String :=
  " " ++ line ++ String.ofList (List.replicate (width - Columns.ofString line) ' ') ++ " "

/-- The lines of a row. -/
def rowLines (widths : List Nat) (row : List String) : List String :=
  let cells := row.map cellLines
  let height := cells.foldl (fun h lines => max h lines.length) 0
  (List.range height).map fun i =>
    let pieces := (widths.zip cells).map fun (w, lines) => pad w (lines.getD i "")
    "│" ++ String.intercalate "┆" pieces ++ "│"

/-- The lines of the whole grid. -/
def lines (t : Grid) : List String :=
  let ws := t.widths
  let rows := t.rows.map (rowLines ws)
  [top.draw ws] ++ rowLines ws t.header ++ [belowHeader.draw ws] ++
    (rows.intersperse [between.draw ws]).flatten ++ [bottom.draw ws]

end Grid

end ProjectIndex.CommandLine
