/-!
# Bounded decimal numerals

Reading a numeral goes from the left and stops at the first offence: a
character that is no digit, or a digit that takes the value past the bound.
Leading zeros do not matter, and the bound is inclusive.
-/

namespace ReaderWriter.Decimal

/-- Why a run of characters is no numeral within the bound. -/
inductive Offence where
  /-- A character is not one of the ten digits. -/
  | notADigit
  /-- The digits so far exceed the bound. -/
  | tooLarge
deriving DecidableEq

/-- The value of one of the ten digits. -/
def digit? (c : Char) : Option Nat :=
  if c.isDigit then some (c.toNat - '0'.toNat) else none

/-- Continues a numeral whose digits so far have the value `value`. -/
def readFrom (bound value : Nat) : List Char → Except Offence Nat
  | [] => .ok value
  | c :: rest =>
    match digit? c with
    | none => .error .notADigit
    | some d =>
      if value * 10 + d ≤ bound then readFrom bound (value * 10 + d) rest else .error .tooLarge

/-- The value of a run of digits, if it is at most `bound`. The empty run has
the value zero; a caller that wants a digit asks for one. -/
def read (bound : Nat) (cs : List Char) : Except Offence Nat :=
  readFrom bound 0 cs

@[simp] theorem readFrom_nil (bound value : Nat) : readFrom bound value [] = .ok value := rfl

theorem readFrom_le {bound value : Nat} {cs : List Char} {v : Nat} (h : value ≤ bound)
    (hr : readFrom bound value cs = .ok v) : v ≤ bound := by
  induction cs generalizing value with
  | nil => simp only [readFrom_nil, Except.ok.injEq] at hr; omega
  | cons c rest ih =>
    simp only [readFrom] at hr
    split at hr
    · cases hr
    · split at hr
      · exact ih ‹_› hr
      · cases hr

/-- What is read is within the bound. -/
theorem read_le {bound : Nat} {cs : List Char} {v : Nat} (h : read bound cs = .ok v) :
    v ≤ bound :=
  readFrom_le (Nat.zero_le _) h

end ReaderWriter.Decimal
