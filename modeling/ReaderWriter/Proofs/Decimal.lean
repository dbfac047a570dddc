import Mathlib.Data.List.TakeWhile
import Mathlib.Tactic.SplitIfs
import ReaderWriter.Decimal

/-!
# What a bounded numeral is read as

A reader that goes digit by digit and compares with the bound after each of them comes to
the same as one that takes the whole run of digits in front, finds out its value without
any bound, and only then looks at the bound and at what follows. For the value of a run
does not fall when digits are added, so the bound is exceeded by the run just if it is
exceeded by some first part of it.
-/

namespace ReaderWriter.Decimal

variable {bound value n : Nat} {c : Char} {cs ds : List Char}

/-- The digits in front. -/
def run (cs : List Char) : List Char :=
  cs.takeWhile Char.isDigit

/-- What follows the digits in front. -/
def afterRun (cs : List Char) : List Char :=
  cs.dropWhile Char.isDigit

theorem toNat_of_isDigit (h : c.isDigit = true) : 48 ≤ c.toNat ∧ c.toNat ≤ 57 := by
  simpa [Char.isDigit, UInt32.le_iff_toNat_le] using h

theorem digit?_of_isDigit (h : c.isDigit = true) : digit? c = some (c.toNat - '0'.toNat) :=
  if_pos h

theorem digit?_of_not_isDigit (h : ¬c.isDigit = true) : digit? c = none :=
  if_neg h

/-- Digits that are added do not take anything away. -/
theorem le_ofDigitChars (ds : List Char) (value : Nat) : value ≤ Nat.ofDigitChars 10 ds value := by
  rw [Nat.ofDigitChars_eq_ofDigitChars_zero]
  have hpos : 0 < 10 ^ ds.length := Nat.pow_pos (by decide)
  have hscaled : value ≤ 10 ^ ds.length * value := Nat.le_mul_of_pos_left value hpos
  omega

/-- Reading goes by the value of the digits in front, and then by what follows them. -/
theorem readFrom_eq (h : value ≤ bound) (cs : List Char) :
    readFrom bound value cs =
      if bound < Nat.ofDigitChars 10 (run cs) value then .error .tooLarge
      else if afterRun cs = [] then .ok (Nat.ofDigitChars 10 (run cs) value)
      else .error .notADigit := by
  induction cs generalizing value with
  | nil => simp [run, afterRun, Nat.not_lt_of_le h]
  | cons c rest ih =>
      by_cases hc : c.isDigit = true
      · have hrun : run (c :: rest) = c :: run rest := List.takeWhile_cons_of_pos hc
        have hafter : afterRun (c :: rest) = afterRun rest := List.dropWhile_cons_of_pos hc
        have hvalue : value * 10 + (c.toNat - '0'.toNat) =
            10 * value + (c.toNat - '0'.toNat) := by
          rw [Nat.mul_comm]
        simp only [readFrom, digit?_of_isDigit hc, hrun, hafter, Nat.ofDigitChars_cons, hvalue]
        split
        · next hle => exact ih hle
        · next hgt =>
            -- What exceeds the bound here still does when the other digits are added.
            have hle := le_ofDigitChars (run rest) (10 * value + (c.toNat - '0'.toNat))
            rw [if_pos (Nat.lt_of_lt_of_le (Nat.lt_of_not_le hgt) hle)]
      · have hrun : run (c :: rest) = [] := List.takeWhile_cons_of_neg hc
        have hafter : afterRun (c :: rest) = c :: rest := List.dropWhile_cons_of_neg hc
        simp only [readFrom, digit?_of_not_isDigit hc, hrun, hafter, Nat.ofDigitChars_nil]
        simp [Nat.not_lt_of_le h]

theorem read_eq (bound : Nat) (cs : List Char) :
    read bound cs =
      if bound < Nat.ofDigitChars 10 (run cs) 0 then .error .tooLarge
      else if afterRun cs = [] then .ok (Nat.ofDigitChars 10 (run cs) 0)
      else .error .notADigit :=
  readFrom_eq (Nat.zero_le bound) cs

theorem run_eq_self (h : ∀ d ∈ ds, d.isDigit = true) : run ds = ds :=
  List.takeWhile_eq_self_iff.mpr h

/-- What is accepted are digits, and a number within the bound. -/
theorem read_eq_ok_iff : read bound cs = .ok n ↔
    (∀ d ∈ cs, d.isDigit = true) ∧ Nat.ofDigitChars 10 cs 0 = n ∧ n ≤ bound := by
  have hself : afterRun cs = [] ↔ ∀ d ∈ cs, d.isDigit = true := List.dropWhile_eq_nil_iff
  rw [read_eq]
  constructor
  · intro h
    split_ifs at h with hover hrest
    have hdigits := hself.mp hrest
    rw [run_eq_self hdigits] at h hover
    cases h
    exact ⟨hdigits, rfl, Nat.le_of_not_lt hover⟩
  · rintro ⟨hdigits, rfl, hle⟩
    rw [run_eq_self hdigits, if_neg (Nat.not_lt_of_le hle), if_pos (hself.mpr hdigits)]

/-- A number is written in digits. -/
theorem isDigit_of_mem_toString {d : Char} (h : d ∈ (toString n).toList) : d.isDigit = true := by
  rw [Nat.toString_eq_ofList_toDigits, String.toList_ofList] at h
  exact Nat.isDigit_of_mem_toDigits (by decide) (by decide) h

/-- A number that is written in digits has the value it had. -/
theorem ofDigitChars_toString (n : Nat) : Nat.ofDigitChars 10 (toString n).toList 0 = n := by
  rw [Nat.toString_eq_ofList_toDigits, String.toList_ofList]
  exact Nat.ofDigitChars_ten_toDigits

theorem toString_ne_nil (n : Nat) : (toString n).toList ≠ [] := by
  rw [Nat.toString_eq_ofList_toDigits, String.toList_ofList]
  exact Nat.toDigits_ne_nil

end ReaderWriter.Decimal
