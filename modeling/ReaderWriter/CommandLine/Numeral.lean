import ReaderWriter.Decimal

/-!
# Numerals on the command line

A numeral is a run of decimal digits, with a plus sign before it if one likes,
and with a minus sign where negative numbers are numbers of the kind. What is
read first has to fit the kind, and then the range that is asked for.
-/

namespace ReaderWriter.CommandLine

/-- Why a text is not one of the numbers that are asked for. -/
inductive NumeralFault where
  | empty
  | notADigit
  | tooLarge
  | tooSmall
  /-- A number of the kind, but outside the range shown. -/
  | outside (value : Int) (range : String)
deriving DecidableEq

/-- The text that says what is wrong with a numeral. -/
def NumeralFault.message : NumeralFault → String
  | .empty => "cannot parse integer from empty string"
  | .notADigit => "invalid digit found in string"
  | .tooLarge => "number too large to fit in target type"
  | .tooSmall => "number too small to fit in target type"
  | .outside value range => s!"{value} is not in {range}"

namespace Numeral

/-- One or more digits whose value is at most `bound`; `excess` is the fault if
it is more. -/
def digits (bound : Nat) (excess : NumeralFault) (cs : List Char) : Except NumeralFault Nat :=
  if cs.isEmpty then .error .notADigit
  else
    match Decimal.read bound cs with
    | .ok value => .ok value
    | .error .notADigit => .error .notADigit
    | .error .tooLarge => .error excess

/-- A number from zero to `bound`. -/
def unsigned (bound : Nat) (text : String) : Except NumeralFault Nat :=
  match text.toList with
  | [] => .error .empty
  | '+' :: cs => digits bound .tooLarge cs
  | cs => digits bound .tooLarge cs

/-- A number whose magnitude is at most `bound`, or one more if it is negative. -/
def signed (bound : Nat) (text : String) : Except NumeralFault Int :=
  match text.toList with
  | [] => .error .empty
  | '+' :: cs => (digits bound .tooLarge cs).map Int.ofNat
  | '-' :: cs => (digits (bound + 1) .tooSmall cs).map fun n => -Int.ofNat n
  | cs => (digits bound .tooLarge cs).map Int.ofNat

/-- The greatest signed number of eight bytes. -/
def greatestSigned : Nat := 9223372036854775807

/-- The greatest number of eight bytes without a sign. -/
def greatestUnsigned : Nat := 18446744073709551615

/-- A number of threads. -/
def threads (text : String) : Except NumeralFault Nat := do
  let value ← signed greatestSigned text
  if 1 ≤ value ∧ value ≤ 65535 then .ok value.toNat else .error (.outside value "1..=65535")

/-- A number of operations. -/
def ops (text : String) : Except NumeralFault Nat := do
  let value ← unsigned greatestUnsigned text
  if 1 ≤ value then .ok value else .error (.outside value "1..18446744073709551615")

/-- A percentage. -/
def percent (text : String) : Except NumeralFault Nat := do
  let value ← signed greatestSigned text
  if 0 ≤ value ∧ value ≤ 100 then .ok value.toNat else .error (.outside value "0..=100")

/-- A seed. -/
def seed (text : String) : Except NumeralFault Nat :=
  unsigned greatestUnsigned text

end Numeral

end ReaderWriter.CommandLine
