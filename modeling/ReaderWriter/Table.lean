import ReaderWriter.Round
import ReaderWriter.Rounding

/-!
# The table of a section

Reports are printed as rows under a header. A row has five columns set apart
by bars; a text that is shorter than its column is moved to the right end, and
one that is longer takes the room it needs.
-/

namespace ReaderWriter.Table

/-- The least width of a column. -/
def width : Nat := 10

/-- A text moved to the right end of its column. -/
def cell (text : String) : String :=
  "".pushn ' ' (width - text.length) ++ text

/-- A row of the table. -/
def row (texts : List String) : String :=
  " | ".intercalate (texts.map cell) ++ " "

/-- The header of a section: a blank line, the title, and the columns. -/
def header (title : String) : List String :=
  ["", s!"=== {title} ===", row ["", "threads", "reads", "writes", "seconds"]]

/-- Microseconds as seconds, in units of the last of four places. The seconds are
worked out at double length before they are rounded to the places. -/
def tenThousandths (micros : Nat) : Nat :=
  ((((Ratio.ofNat micros).double.dividedBy 1000000).double).times 10000).nearest

/-- Microseconds as seconds with four places. -/
def seconds (micros : Nat) : String :=
  let units := tenThousandths micros
  let places := toString (units % 10000)
  s!"{units / 10000}." ++ "".pushn '0' (4 - places.length) ++ places

/-- The row of a report. -/
def ofReport (r : Report) : String :=
  row [r.contender, toString r.threads, toString r.reads, toString r.writes, seconds r.micros]

end ReaderWriter.Table
