import ReaderWriter.Lock.Blocking
import ReaderWriter.Proofs.Contract

/-!
# Balanced words

The words of a lock are a balance sheet. They are balanced against a number of
registered readers, of owners of the flag, and of readers that have raised the
barrier, if the counters, the flag and the barrier show just these numbers.
The numbers are natural numbers and the words wrap, so the counters show the
readers modulo the range of a word.

Every operation of the lock moves the words and the numbers together. It does
so for any numbers that are there already, so these stand for whatever the
other callers have at stake.
-/

namespace ReaderWriter

/-- The writer owns the flag while it waits. -/
def WriteWait.isDrain : WriteWait → Bool
  | .drain => true
  | .barrier | .flag => false

namespace Lock

/-- The words show `readers` registrations, `owners` of the flag and `raisers`
of the barrier. -/
structure Balanced (l : Lock) (readers owners raisers : Nat) : Prop where
  readers : l.registered = UInt32.ofNat readers
  owners : l.flag.toNat = owners
  raisers : l.barrier.toInt = raisers

variable {l : Lock} {readers owners raisers : Nat}

@[simp] theorem registered_arrive (l : Lock) : l.arrive.registered = l.registered + 1 := by
  simp only [registered, arrive]
  grind

@[simp] theorem registered_depart (l : Lock) : l.depart.registered = l.registered - 1 := by
  simp only [registered, depart]
  grind

theorem fresh_balanced : fresh.Balanced 0 0 0 := ⟨rfl, rfl, rfl⟩

namespace Balanced

theorem owners_le (h : l.Balanced readers owners raisers) : owners ≤ 1 := by
  rw [← h.owners]
  exact Bool.toNat_le l.flag

theorem flag_iff (h : l.Balanced readers owners raisers) : l.flag = true ↔ owners = 1 := by
  rw [← h.owners]
  exact Bool.toNat_eq_one.symm

theorem flag_eq_false (h : l.Balanced readers 0 raisers) : l.flag = false :=
  Bool.toNat_eq_zero.mp h.owners

theorem flag_eq_true (h : l.Balanced readers (owners + 1) raisers) : l.flag = true := by
  have hle := h.owners_le
  exact h.flag_iff.mpr (by omega)

theorem owners_eq_zero (h : l.Balanced readers owners raisers) (hf : l.flag = false) :
    owners = 0 := by
  rw [← h.owners, hf]
  rfl

theorem isEmpty_iff (h : l.Balanced readers owners raisers) :
    l.isEmpty = true ↔ readers % 2 ^ 32 = 0 := by
  rw [isEmpty_iff_registered, h.readers, ← UInt32.toNat_inj, UInt32.toNat_ofNat']
  exact Iff.rfl

theorem isBarred_iff (h : l.Balanced readers owners raisers) :
    l.isBarred = true ↔ 0 < raisers := by
  rw [Lock.isBarred_iff, Int32.lt_iff_toInt_lt, h.raisers]
  exact Int.natCast_pos

theorem raisers_lt (h : l.Balanced readers owners raisers) : raisers < 2 ^ 31 := by
  have hlt := l.barrier.toInt_lt
  rw [h.raisers] at hlt
  omega

/-! ## The parts of the lock -/

theorem arrive (h : l.Balanced readers owners raisers) :
    l.arrive.Balanced (readers + 1) owners raisers where
  readers := by rw [registered_arrive, h.readers, UInt32.ofNat_add]; rfl
  owners := h.owners
  raisers := h.raisers

theorem depart (h : l.Balanced (readers + 1) owners raisers) :
    l.depart.Balanced readers owners raisers where
  readers := by
    rw [registered_depart, h.readers, UInt32.ofNat_add]
    exact UInt32.add_sub_cancel _ _
  owners := h.owners
  raisers := h.raisers

theorem raise (h : l.Balanced readers owners raisers) (few : raisers + 1 < 2 ^ 31) :
    l.raise.Balanced readers owners (raisers + 1) where
  readers := h.readers
  owners := h.owners
  raisers := by
    have hone : (1 : Int32).toInt = 1 := rfl
    simp only [Lock.raise, Int32.toInt_add, h.raisers, hone]
    rw [Int.bmod_eq_of_le (by omega) (by omega)]
    rfl

/-- A raised barrier can be lowered. -/
theorem lower (h : l.Balanced readers owners (raisers + 1)) :
    ∃ m, l.lower = (m, .ok ()) ∧ m.flag = l.flag ∧ m.Balanced readers owners raisers := by
  have hb : l.isBarred = true := h.isBarred_iff.mpr (Nat.succ_pos _)
  refine ⟨{ l with barrier := l.barrier - 1 }, by rw [Lock.lower, if_pos hb], rfl,
    h.readers, h.owners, ?_⟩
  have hone : (1 : Int32).toInt = 1 := rfl
  have hlt := h.raisers_lt
  simp only [Int32.toInt_sub, h.raisers, hone]
  rw [Int.bmod_eq_of_le (by omega) (by omega)]
  omega

/-- The flag can be claimed if it has no owner. -/
theorem claim (h : l.Balanced readers 0 raisers) :
    ∃ m, l.claim = (m, true) ∧ m.Balanced readers 1 raisers ∧ m.barrier = l.barrier := by
  refine ⟨{ l with flag := true }, ?_, ⟨h.readers, rfl, h.raisers⟩, rfl⟩
  rw [Lock.claim, h.flag_eq_false]
  rfl

/-- A flag that has an owner can be released. -/
theorem release (h : l.Balanced readers (owners + 1) raisers) :
    ∃ m, l.release = (m, .ok ()) ∧ m.flag = false ∧ m.Balanced readers owners raisers := by
  have hle := h.owners_le
  obtain rfl : owners = 0 := by omega
  exact ⟨{ l with flag := false }, by rw [Lock.release, if_pos h.flag_eq_true], rfl,
    h.readers, rfl, h.raisers⟩

end Balanced

theorem claim_of_flag {l : Lock} (h : l.flag = true) : l.claim = (l, false) := by
  obtain ⟨i, e, b, f⟩ := l
  obtain rfl : f = true := h
  rfl

theorem claim_of_not_flag {l : Lock} (h : l.flag = false) :
    l.claim = ({ l with flag := true }, true) := by
  rw [claim, h]
  rfl

end Lock

end ReaderWriter
