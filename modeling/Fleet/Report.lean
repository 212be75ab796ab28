import Fleet.Member
import Fleet.Number.Binary64.Text
import Fleet.Text.Blank
import Fleet.Text.Upper

/-!
# Reports in columns

A report has a line of headings in upper case and a line for each row.  A column is as wide as the
longest of its heading and its cells, counted in bytes of UTF-8; a cell is filled up to that many
characters, and three spaces stand between two columns.  There is no report with a column that is
too wide for its cells to be filled up.

## Main definitions

* `Report.widths`, `Report.line?`, `Report.lines?` — the parts of a report.
* `Report.table?` — a report as a text.
* `Report.members?` — the report on the members of a cluster.
-/

namespace Fleet.Report

/-- The widths of columns that are at least so wide and have room for the cells of a row. -/
def widen : List Nat → List String → List Nat
  | w :: ws, cell :: cells => max w cell.utf8ByteSize :: widen ws cells
  | ws, _ => ws

/-- The width of each column, in bytes. -/
def widths (headings : List String) (rows : List (List String)) : List Nat :=
  rows.foldl widen (headings.map String.utf8ByteSize)

/-- A cell can be filled up to this many characters. -/
def maxWidth : Nat := 65535

/-- A cell filled up with spaces. -/
def pad (cell : String) (width : Nat) : List Char :=
  cell.toList ++ List.replicate (width - cell.length) ' '

/-- A cell filled up with spaces, none if its column is too wide. -/
def pad? (cell : String) (width : Nat) : Option (List Char) :=
  if width ≤ maxWidth then some (pad cell width) else none

/-- The characters between two columns. -/
def gap : List Char := [' ', ' ', ' ']

/-- A row as a line; cells without a column are left out, and so is blank space at the end. -/
def line? (widths : List Nat) (cells : List String) : Option (List Char) := do
  let padded ← (cells.zip widths).mapM fun (cell, width) => pad? cell width
  some (Text.trimRight (gap.intercalate padded))

/-- The lines of a report. -/
def lines? (headings : List String) (rows : List (List String)) : Option (List (List Char)) :=
  (headings.map Text.upper :: rows).mapM (line? (widths headings rows))

/-- A report as a text; a report without rows says so instead. -/
def table? (headings : List String) (rows : List (List String)) : Option String :=
  if rows.isEmpty then some "No nodes found.\n"
  else (lines? headings rows).map fun ls => String.ofList (ls.flatMap (· ++ ['\n']))

/-- The headings of the report on members. -/
def memberHeadings : List String := ["id", "address", "status", "role", "memory", "cpu"]

/-- The memory in a load. -/
def memoryCell (l : Load) : String :=
  s!"{Decimal.text l.used.toNat}/{Decimal.text l.max.toNat} MB"

/-- The reading of the processors in a load, with one decimal place. -/
def cpuCell (l : Load) : String :=
  if l.cpuKnown then String.ofList (l.cpu.fixedText ++ ['%']) else "-"

/-- The row of a member. -/
def memberRow (head : String) (m : Member) : List String :=
  [m.id, m.identity.address, if m.available then "Up" else "Down",
    if m.id = head then "head" else "", (m.load.map memoryCell).getD "-",
    (m.load.map cpuCell).getD "-"]

/-- The report on members, one of them marked as head. -/
def members? (ms : List Member) (head : String) : Option String :=
  table? memberHeadings (ms.map (memberRow head))

end Fleet.Report
