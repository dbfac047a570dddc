import ReaderWriter.Proofs.Lock.Operation
import ReaderWriter.Proofs.Session.Frame

/-!
# The end of a lock

A lock is torn down with a check that nobody holds it. If no call is stopped on
it, its words show the holds and nothing else, so the holds alone decide what
the check finds: a writer is found before readers are, and the barrier is not
looked at.

The step that tears an object down is begun only if no guard and no call needs
the object any more.
-/

namespace ReaderWriter

namespace Lock

variable {π : Type} {l : Lock} {h : Holds} {raisers : Nat}

/-- The check decides how the end of a lock goes. -/
theorem destroy_eq (l : Lock) : (l.destroy : Stride Lock π Unit) =
    match l.checkReleased with
    | .ok () => ⟨l, [.lockDestroyed], .finished ()⟩
    | .error breach => ⟨l, [], .violated breach⟩ := by
  rw [destroy]
  cases l.checkReleased <;> rfl

theorem destroy_progress (l : Lock) : (l.destroy : Stride Lock π Unit).progress =
    match l.checkReleased with
    | .ok () => .finished ()
    | .error breach => .violated breach := by
  rw [destroy_eq]
  cases l.checkReleased <;> rfl

namespace Balanced

/-- A lock that is balanced against the holds alone ends well just if there are
none, as long as the readers can be counted in a word. -/
theorem destroy_finished_iff (hb : l.Balanced h.reads h.writes raisers) (few : h.reads < 2 ^ 32) :
    (l.destroy : Stride Lock π Unit).progress = .finished () ↔ h = .none := by
  have hempty : l.isEmpty = true ↔ h.reads = 0 := by
    rw [hb.isEmpty_iff, Nat.mod_eq_of_lt few]
  have hnone : h = .none ↔ h.reads = 0 ∧ h.writes = 0 := Holds.ext_iff
  rw [destroy_progress, checkReleased, hnone]
  cases hf : l.flag with
  | true =>
      have hone := hb.flag_iff.mp hf
      simp [hone]
  | false =>
      have hzero := hb.owners_eq_zero hf
      by_cases he : l.isEmpty = true
      · simp [he, hempty.mp he, hzero]
      · simp [he, mt hempty.mpr he]

/-- A hold for writing is found first. -/
theorem destroy_written (hb : l.Balanced h.reads h.writes raisers) (hw : h.writes = 1) :
    (l.destroy : Stride Lock π Unit).progress = .violated .destroyedWriteLocked := by
  rw [destroy_progress, checkReleased, if_pos (hb.flag_iff.mpr hw)]

/-- Holds for reading are found if there is none for writing. -/
theorem destroy_read (hb : l.Balanced h.reads h.writes raisers) (hx : h.Exclusive)
    (few : h.reads < 2 ^ 32) (hr : 0 < h.reads) :
    (l.destroy : Stride Lock π Unit).progress = .violated .destroyedWithReaders := by
  have hw : h.writes = 0 := by
    have hle := hx.1
    have hreads := hx.2
    omega
  have hempty : ¬ l.isEmpty = true := by
    rw [hb.isEmpty_iff, Nat.mod_eq_of_lt few]
    omega
  rw [hw] at hb
  rw [destroy_progress, checkReleased, hb.flag_eq_false, if_neg Bool.false_ne_true, if_neg hempty]

end Balanced

end Lock

/-- A payload is torn down with its lock. -/
theorem Payload.finish_writerFirst (l : Lock) (store : Store) :
    Payload.finish ⟨.writerFirst l, store⟩ =
      match l.checkReleased with
      | .ok () => ⟨⟨.writerFirst l, store⟩, [.lockDestroyed, closingRecord store], .finished ()⟩
      | .error breach => ⟨⟨.writerFirst l, store⟩, [], .violated breach⟩ := by
  rw [finish]
  dsimp only
  rw [Lock.destroy_eq]
  cases l.checkReleased <;> rfl

namespace Session

variable {s : Session} {key actor : Nat} {o : Object} {how : TearDown}

/-- Nobody needs an object without guards and without calls that are stopped on it. -/
theorem inUse_eq_false (hu : s.Unguarded key)
    (hq : ∀ a c, s.stopped.get? a = some c → c.object ≠ key) : s.inUse key = false := by
  rw [inUse, Registry.any_eq_false, Registry.any_eq_false]
  · rfl
  · intro name g hget
    exact beq_false_of_ne (hu name g hget)
  · intro a c hget
    exact beq_false_of_ne (hq a c hget)

/-- The tearing down of an object that nobody needs any more. -/
theorem take_tearDown {outcome : Reply × List Record}
    (hfree : s.stopped.get? actor = none) (ho : s.objects.get? key = some o)
    (hunused : s.inUse key = false) (hrun : how.run? o = some outcome) :
    s.take ⟨actor, key, .tearDown how⟩ =
      ({ s with objects := s.objects.erase key }, outcome) := by
  rw [take_of_free hfree ho rfl, act, hunused, hrun]
  rfl

end Session

end ReaderWriter
