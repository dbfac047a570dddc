import ReaderWriter.Decimal

/-!
# Reader patience

A reader that is kept out by writers spins a bounded number of times before it
asks new writers to stand aside. The bound is the patience; a build may set
another one in decimal.
-/

namespace ReaderWriter.Patience

/-- The spins a reader tolerates unless the build sets another number. -/
def standard : UInt32 := 500

/-- The spins a reader tolerates in this build. -/
def limit : UInt32 := standard

/-- A reader that has spun so often asks writers to stand aside. -/
def exhausted (spins : UInt32) : Bool :=
  limit ≤ spins

/-- Why a text sets no patience. -/
inductive Fault where
  | empty
  | notDecimal
  | overflow
deriving DecidableEq

/-- The text that reports a faulty setting. -/
def Fault.message : Fault → String
  | .empty => "CRWWP_READER_PATIENCE is empty"
  | .notDecimal => "CRWWP_READER_PATIENCE must be a decimal integer"
  | .overflow => "CRWWP_READER_PATIENCE overflows u32"

/-- The greatest patience that can be set. -/
def greatest : Nat := 4294967295

/-- Reads a patience from its decimal digits; the leftmost offence decides. -/
def ofText (text : String) : Except Fault Nat :=
  match text.toList with
  | [] => .error .empty
  | cs@(_ :: _) =>
    match Decimal.read greatest cs with
    | .ok value => .ok value
    | .error .notADigit => .error .notDecimal
    | .error .tooLarge => .error .overflow

end ReaderWriter.Patience
