/-!
# Capacity

The decisions of a plan and the elements of a queue lie side by side in one
piece of memory. However much memory there is, no piece of it extends over 2^63
bytes or more, so a collection that would is refused before any of it is made.
-/

namespace ReaderWriter.Capacity

/-- The most bytes that a piece of memory can have. -/
def bytes : Nat := UInt64.size / 2 - 1

/-- So many items of so many bytes each fit into one piece of memory. -/
def holds (count width : Nat) : Bool :=
  count * width ≤ bytes

/-- The text that reports a collection that does not fit. -/
def message : String := "capacity overflow"

theorem holds_iff (count width : Nat) :
    holds count width = true ↔ count * width < UInt64.size / 2 := by
  have hpos : 0 < UInt64.size / 2 := by decide
  simp only [holds, bytes, decide_eq_true_eq, Nat.le_sub_one_iff_lt hpos]

end ReaderWriter.Capacity
