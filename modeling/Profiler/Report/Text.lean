import Profiler.Report.Basic
import Profiler.Seconds

/-!
# Reports as tables

A table has a header and one line for each row of the report. Names stand on the left, indented by
their depth and padded to the longest of them; the columns that are collected stand on the right,
each as wide as its widest cell. `Report.lines` holds the lines, `Report.text` the whole table.
-/

namespace Profiler

/-- A column of a table. -/
inductive Column where
  | cpu
  | wall
  | reads
  | writes
  | count
deriving DecidableEq

namespace Column

/-- All columns in their order. -/
def all : List Column := [cpu, wall, reads, writes, count]

/-- Whether a column is part of the table. -/
def isShown (metrics : Metrics) : Column → Bool
  | cpu | reads | writes => metrics.cpu
  | wall => metrics.wall
  | count => metrics.count

/-- The title of a column. -/
def header : Column → List Char
  | cpu => ['C', 'P', 'U']
  | wall => ['W', 'a', 'l', 'l']
  | reads => ['R', 'd', ' ', 'B', 'l', 'k', 's']
  | writes => ['W', 'r', 't', ' ', 'B', 'l', 'k', 's']
  | count => ['C', 'o', 'u', 'n', 't']

/-- What a column shows of a region. -/
def cell (region : Region) : Column → List Char
  | cpu => region.cpu.inTable
  | wall => region.wall.inTable
  | reads => Decimal.digits region.reads.val
  | writes => Decimal.digits region.writes.val
  | count => Decimal.digits region.count.val

/-- The width of a column: that of its widest cell or its header. -/
def width (rows : List (Nat × Region)) (column : Column) : Nat :=
  rows.foldr (fun row widest => max (column.cell row.2).length widest) column.header.length

end Column

/-- The name of a region in a table, indented by its depth. -/
def Region.label (depth : Nat) (region : Region) : List Char :=
  List.replicate (2 * depth) ' ' ++ region.name.toList ++ [':', ' ']

/-- How wide the parts of a table are. -/
structure Grid where
  /-- The width of the longest label. -/
  label : Nat
  /-- The columns with their widths. -/
  columns : List (Column × Nat)

namespace Grid

/-- The grid that fits the rows. -/
def ofRows (metrics : Metrics) (rows : List (Nat × Region)) : Grid where
  label := rows.foldr (fun row widest => max (row.2.label row.1).length widest) 0
  columns := (Column.all.filter (Column.isShown metrics)).map fun column =>
    (column, column.width rows)

/-- A line of a table: a label padded on the right, and cells padded on the left. -/
def line (grid : Grid) (label : List Char) (cell : Column → List Char) : List Char :=
  List.rightpad grid.label ' ' label
    ++ grid.columns.flatMap fun (column, width) => ' ' :: List.leftpad width ' ' (cell column)

end Grid

namespace Report

/-- The grid of a report's table. -/
def grid (report : Report) : Grid := .ofRows report.metrics report.rows

/-- The lines of the table. -/
def lines (report : Report) : List (List Char) :=
  let grid := report.grid
  grid.line [] Column.header
    :: report.rows.map fun row => grid.line (row.2.label row.1) fun column => column.cell row.2

/-- The table, each line with its end. -/
def text (report : Report) : String :=
  String.ofList (report.lines.flatMap (· ++ ['\n']))

end Report

end Profiler
