import Mathlib.Tactic.SplitIfs
import ReaderWriter.CommandLine.Numeral
import ReaderWriter.CommandLine.Settings
import ReaderWriter.Proofs.Decimal

/-!
# Which numbers are accepted

A text may write a number in decimal, behind a sign or without one. Every slot that takes a
number has a range, and it takes a text just if this writes a number within the range. (A
zero with a minus is a number, but one that no slot without a sign takes.)
-/

namespace ReaderWriter.CommandLine

/-- A reader that goes on from another one has read something if both have. -/
theorem bind_eq_ok_iff {ε α β : Type} {x : Except ε α} {f : α → Except ε β} {b : β} :
    (x >>= f) = .ok b ↔ ∃ a, x = .ok a ∧ f a = .ok b := by
  cases x with
  | error e => exact ⟨fun h => (by cases h), fun ⟨a, h, _⟩ => (by cases h)⟩
  | ok a => exact ⟨fun h => ⟨a, rfl, h⟩, fun ⟨a', h, h'⟩ => (by cases h; exact h')⟩

variable {text : String} {bound n : Nat} {excess : NumeralFault} {cs : List Char} {v : Int}

/-- The numbers that a slot takes. The workload is no number. -/
def Slot.Admits : Slot → Int → Prop
  | .threads, v => 1 ≤ v ∧ v ≤ 65535
  | .ops, v => 1 ≤ v ∧ v < UInt64.size
  | .writePercent, v => 0 ≤ v ∧ v ≤ 100
  | .workload, _ => False
  | .seed, v => 0 ≤ v ∧ v < UInt64.size

instance : (slot : Slot) → (v : Int) → Decidable (slot.Admits v)
  | .threads, v => inferInstanceAs (Decidable (1 ≤ v ∧ v ≤ 65535))
  | .ops, v => inferInstanceAs (Decidable (1 ≤ v ∧ v < UInt64.size))
  | .writePercent, v => inferInstanceAs (Decidable (0 ≤ v ∧ v ≤ 100))
  | .workload, _ => inferInstanceAs (Decidable False)
  | .seed, v => inferInstanceAs (Decidable (0 ≤ v ∧ v < UInt64.size))

namespace Numeral

/-- The number that some digits write; none if one of them is no digit, or without any. -/
def run? (cs : List Char) : Option Nat :=
  if !cs.isEmpty && cs.all Char.isDigit then some (Nat.ofDigitChars 10 cs 0) else none

/-- The number that a text writes in decimal, however great it is. -/
def value? (text : String) : Option Int :=
  match text.toList with
  | '+' :: cs => (run? cs).map Int.ofNat
  | '-' :: cs => (run? cs).map fun n => -Int.ofNat n
  | cs => (run? cs).map Int.ofNat

theorem run?_eq_some_iff : run? cs = some n ↔
    (cs ≠ [] ∧ ∀ d ∈ cs, d.isDigit = true) ∧ Nat.ofDigitChars 10 cs 0 = n := by
  have hdigits : (!cs.isEmpty && cs.all Char.isDigit) = true ↔
      cs ≠ [] ∧ ∀ d ∈ cs, d.isDigit = true := by
    simp
  rw [run?]
  split_ifs with h
  · rw [Option.some_inj, and_iff_right (hdigits.mp h)]
  · simp only [false_iff, not_and]
    exact fun h' => absurd (hdigits.mpr h') h

/-- Digits are taken just if the number that they write is within the bound. -/
theorem digits_eq_ok_iff : digits bound excess cs = .ok n ↔ run? cs = some n ∧ n ≤ bound := by
  have hread : digits bound excess cs = .ok n ↔ cs ≠ [] ∧ Decimal.read bound cs = .ok n := by
    cases cs with
    | nil => simp [digits]
    | cons c rest =>
        rw [digits, if_neg (by simp)]
        cases Decimal.read bound (c :: rest) with
        | ok m => simp
        | error offence => cases offence <;> simp
  rw [hread, Decimal.read_eq_ok_iff, run?_eq_some_iff]
  simp only [and_assoc]

theorem map_digits_eq_ok_iff {α : Type} {f : Nat → α} {a : α} :
    (digits bound excess cs).map f = .ok a ↔ ∃ n, run? cs = some n ∧ n ≤ bound ∧ f n = a := by
  have hmap : (digits bound excess cs).map f = .ok a ↔
      ∃ n, digits bound excess cs = .ok n ∧ f n = a := by
    cases digits bound excess cs with
    | ok n => simp [Except.map]
    | error why => simp [Except.map]
  simp only [hmap, digits_eq_ok_iff, and_assoc]

/-- The numbers that some digits write without a minus. -/
theorem map_ofNat_digits_eq_ok_iff : (digits bound excess cs).map Int.ofNat = .ok v ↔
    (run? cs).map Int.ofNat = some v ∧ -(bound + 1 : Int) ≤ v ∧ v ≤ bound := by
  rw [map_digits_eq_ok_iff, Option.map_eq_some_iff]
  constructor
  · rintro ⟨n, hrun, hle, rfl⟩
    exact ⟨⟨n, hrun, rfl⟩, by simp; omega, by simpa using hle⟩
  · rintro ⟨⟨n, hrun, rfl⟩, -, hle⟩
    exact ⟨n, hrun, by simpa using hle, rfl⟩

/-- The numbers that some digits write behind a minus: there is one more of them. -/
theorem map_neg_digits_eq_ok_iff :
    (digits (bound + 1) excess cs).map (fun n => -Int.ofNat n) = .ok v ↔
      (run? cs).map (fun n => -Int.ofNat n) = some v ∧ -(bound + 1 : Int) ≤ v ∧ v ≤ bound := by
  rw [map_digits_eq_ok_iff, Option.map_eq_some_iff]
  constructor
  · rintro ⟨n, hrun, hle, rfl⟩
    refine ⟨⟨n, hrun, rfl⟩, ?_, ?_⟩ <;> simp only [Int.ofNat_eq_natCast] <;> omega
  · rintro ⟨⟨n, hrun, rfl⟩, hle, -⟩
    exact ⟨n, hrun, by simp at hle; omega, rfl⟩

theorem signed_eq_ok_iff : signed bound text = .ok v ↔
    value? text = some v ∧ -(bound + 1 : Int) ≤ v ∧ v ≤ bound := by
  rw [signed, value?]
  split
  · next hnil => simp [hnil, run?]
  · next cs hplus =>
      rw [hplus]
      exact map_ofNat_digits_eq_ok_iff
  · next cs hminus =>
      rw [hminus]
      exact map_neg_digits_eq_ok_iff
  · next hplus hminus =>
      split
      · next cs h => exact absurd h (hplus cs)
      · next cs h => exact absurd h (hminus cs)
      · exact map_ofNat_digits_eq_ok_iff

theorem digits_eq_ok_iff_map : digits bound excess cs = .ok n ↔
    (run? cs).map Int.ofNat = some (n : Int) ∧ n ≤ bound := by
  have hcast : (run? cs).map Int.ofNat = some (n : Int) ↔ run? cs = some n := by
    cases run? cs with
    | none => simp
    | some m =>
        rw [Option.map_some, Option.some_inj, Option.some_inj]
        exact Int.ofNat_inj
  rw [digits_eq_ok_iff, hcast]

/-- Where no sign is expected, a minus is an offence even before a zero. -/
theorem unsigned_eq_ok_iff : unsigned bound text = .ok n ↔
    text.toList.head? ≠ some '-' ∧ value? text = some (n : Int) ∧ n ≤ bound := by
  rw [unsigned, value?]
  split
  · next hnil => simp [hnil, run?]
  · next cs hplus =>
      rw [hplus, and_iff_right (by simp)]
      exact digits_eq_ok_iff_map
  · next hplus =>
      split
      · next cs h => exact absurd h (hplus cs)
      · next cs hminus =>
          have hrun : run? ('-' :: cs) = none := by simp [run?]
          rw [hminus, digits_eq_ok_iff_map, hrun]
          simp
      · next hminus =>
          have hhead : text.toList.head? ≠ some '-' := by
            intro h
            obtain ⟨cs, hcs⟩ := List.head?_eq_some_iff.mp h
            exact hminus cs hcs
          rw [and_iff_right hhead]
          exact digits_eq_ok_iff_map

/-! ## Slots -/

/-- A range of numbers without a sign, in the midst of those with one. -/
theorem signed_between_eq_ok_iff {least greatest : Int} {range : String} (hleast : 0 ≤ least)
    (hgreatest : greatest ≤ greatestSigned) :
    (signed greatestSigned text >>= fun v =>
      if least ≤ v ∧ v ≤ greatest then Except.ok v.toNat else .error (.outside v range)) = .ok n ↔
      value? text = some (n : Int) ∧ least ≤ n ∧ n ≤ greatest := by
  rw [bind_eq_ok_iff]
  simp only [signed_eq_ok_iff]
  constructor
  · rintro ⟨v, ⟨hvalue, -⟩, h⟩
    split_ifs at h with hrange
    cases h
    rw [Int.toNat_of_nonneg (Int.le_trans hleast hrange.1)]
    exact ⟨hvalue, hrange⟩
  · rintro ⟨hvalue, hrange⟩
    refine ⟨n, ⟨hvalue, by omega, by omega⟩, ?_⟩
    rw [if_pos hrange, Int.toNat_natCast]

theorem threads_eq_ok_iff : threads text = .ok n ↔
    value? text = some (n : Int) ∧ Slot.threads.Admits n :=
  signed_between_eq_ok_iff (by decide) (by decide)

theorem percent_eq_ok_iff : percent text = .ok n ↔
    value? text = some (n : Int) ∧ Slot.writePercent.Admits n :=
  signed_between_eq_ok_iff (by decide) (by decide)

theorem ops_eq_ok_iff : ops text = .ok n ↔
    value? text = some (n : Int) ∧ Slot.ops.Admits n := by
  have hsize : greatestUnsigned + 1 = UInt64.size := rfl
  have hadmits : Slot.ops.Admits n ↔ 1 ≤ n ∧ n ≤ greatestUnsigned := by
    rw [Slot.Admits]
    omega
  rw [ops, bind_eq_ok_iff, hadmits]
  simp only [unsigned_eq_ok_iff]
  constructor
  · rintro ⟨m, ⟨-, hvalue, hle⟩, h⟩
    split_ifs at h with hpos
    cases h
    exact ⟨hvalue, hpos, hle⟩
  · rintro ⟨hvalue, hpos, hle⟩
    refine ⟨n, ⟨?_, hvalue, hle⟩, if_pos hpos⟩
    -- Behind a minus there is no positive number.
    intro hminus
    obtain ⟨cs, hcs⟩ := List.head?_eq_some_iff.mp hminus
    simp only [value?, hcs, Option.map_eq_some_iff] at hvalue
    obtain ⟨m, -, hm⟩ := hvalue
    simp only [Int.ofNat_eq_natCast] at hm
    omega

theorem seed_eq_ok_iff : seed text = .ok n ↔
    text.toList.head? ≠ some '-' ∧ value? text = some (n : Int) ∧ Slot.seed.Admits n := by
  have hsize : greatestUnsigned + 1 = UInt64.size := rfl
  have hadmits : Slot.seed.Admits n ↔ n ≤ greatestUnsigned := by
    rw [Slot.Admits]
    omega
  rw [seed, unsigned_eq_ok_iff, hadmits]

/-- Digits write their number. -/
theorem value?_of_run? (h : run? text.toList = some n) : value? text = some (n : Int) := by
  rw [value?]
  split
  · next cs hplus =>
      rw [hplus] at h
      exact absurd (run?_eq_some_iff.mp h).1.2 (by simp)
  · next cs hminus =>
      rw [hminus] at h
      exact absurd (run?_eq_some_iff.mp h).1.2 (by simp)
  · rw [h]
    rfl

/-- A number is written as one that has its value. -/
theorem value?_toString (n : Nat) : value? (toString n) = some (n : Int) := by
  apply value?_of_run?
  rw [run?_eq_some_iff]
  exact ⟨⟨Decimal.toString_ne_nil n, fun _ => Decimal.isDigit_of_mem_toString⟩,
    Decimal.ofDigitChars_toString n⟩

/-- The number that a text says for a slot. -/
def ofSlot (slot : Slot) (text : String) : Except NumeralFault Nat :=
  match slot with
  | .threads => threads text
  | .ops => ops text
  | .writePercent => percent text
  | .workload => .error .empty
  | .seed => seed text

/-- What is taken for a slot is a numeral, and its number is one that the slot takes. -/
theorem of_ofSlot {slot : Slot} (h : ofSlot slot text = .ok n) :
    value? text = some (n : Int) ∧ slot.Admits n := by
  cases slot with
  | threads => exact threads_eq_ok_iff.mp h
  | ops => exact ops_eq_ok_iff.mp h
  | writePercent => exact percent_eq_ok_iff.mp h
  | workload => cases h
  | seed => exact (seed_eq_ok_iff.mp h).2

theorem head?_toString_ne (n : Nat) : (toString n).toList.head? ≠ some '-' := by
  intro h
  exact absurd (Decimal.isDigit_of_mem_toString (List.mem_of_head? h)) (by decide)

/-- A number that a slot takes may be written out for it. -/
theorem ofSlot_toString {slot : Slot} (h : slot.Admits n) : ofSlot slot (toString n) = .ok n := by
  cases slot with
  | threads => exact threads_eq_ok_iff.mpr ⟨value?_toString n, h⟩
  | ops => exact ops_eq_ok_iff.mpr ⟨value?_toString n, h⟩
  | writePercent => exact percent_eq_ok_iff.mpr ⟨value?_toString n, h⟩
  | workload => exact h.elim
  | seed => exact seed_eq_ok_iff.mpr ⟨head?_toString_ne n, value?_toString n, h⟩

end Numeral

end ReaderWriter.CommandLine
