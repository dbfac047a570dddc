import ReaderWriter.Proofs.Lock.Balance

/-!
# Where waiting calls stand

The place of a waiting reader is a function of the pause it stands in: the
spins it has counted and whether it has raised the barrier follow from the
number of that pause. It raises the barrier when it returns from the first
pause past its patience, and never again.

The contracts of the waiting operations say what a call has at stake where it
pauses and where it ends. A paused reader has at most its raise of the
barrier, a paused writer at most the flag. A reader gets in only while the
flag is down, a writer only when no reader is registered.
-/

namespace ReaderWriter

namespace ReadWait

/-- The place of a reader in its pause number `p`. -/
def standing (p : Nat) : ReadWait :=
  ⟨UInt32.ofNat (min (p - 1) 4294967295), decide (Patience.limit.toNat + 1 < p)⟩

private theorem spins_standing (p : Nat) :
    (standing p).spins.toNat = min (p - 1) 4294967295 := by
  simp only [standing, UInt32.toNat_ofNat']
  omega

theorem exhausted_standing {p : Nat} (hp : 0 < p) :
    Patience.exhausted (standing p).spins = true ↔ Patience.limit.toNat + 1 ≤ p := by
  have hlimit := Patience.limit.toNat_lt
  rw [Patience.exhausted, decide_eq_true_iff, UInt32.le_iff_toNat_le, spins_standing]
  omega

/-- The one pause from which a reader returns to raise the barrier. -/
theorem isStarving_standing {p : Nat} (hp : 0 < p) :
    (standing p).isStarving = true ↔ p = Patience.limit.toNat + 1 := by
  rw [isStarving, Bool.and_eq_true, exhausted_standing hp]
  simp only [standing, Bool.not_eq_true', decide_eq_false_iff_not]
  omega

theorem next_standing {p : Nat} (hp : 0 < p) : (standing p).next = standing (p + 1) := by
  have hspins : countSpin (standing p).spins = (standing (p + 1)).spins := by
    have hcount := spins_standing p
    rw [← UInt32.toNat_inj, spins_standing, countSpin]
    split
    · next hmax =>
        rw [hmax] at hcount
        have hvalue : (4294967295 : UInt32).toNat = 4294967295 := rfl
        rw [hmax]
        omega
    · next hless =>
        rw [← UInt32.toNat_inj] at hless
        have hvalue : (4294967295 : UInt32).toNat = 4294967295 := rfl
        have hone : (1 : UInt32).toNat = 1 := rfl
        rw [UInt32.toNat_add]
        omega
  have hraised : ((standing p).raised || (standing p).isStarving) = (standing (p + 1)).raised := by
    rw [Bool.eq_iff_iff, Bool.or_eq_true, isStarving_standing hp]
    simp only [standing, decide_eq_true_iff]
    omega
  rw [next, hspins, hraised]

/-- At the end of its patience a reader has counted exactly as many spins. -/
theorem spins_of_isStarving {p : Nat} (hp : 0 < p) (h : (standing p).isStarving = true) :
    (standing p).spins = Patience.limit := by
  have hlimit := Patience.limit.toNat_lt
  rw [(isStarving_standing hp).mp h, ← UInt32.toNat_inj, spins_standing]
  omega

private theorem readAgain_ends {π : Type} (l : Lock) (raised : Bool) (p : π) :
    (l.readAgain raised).progress ≠ .paused p := by
  intro hp
  rw [Lock.readAgain, Lock.lower] at hp
  cases raised with
  | false => cases hp
  | true =>
      cases hb : l.arrive.isBarred with
      | true =>
          rw [hb] at hp
          cases hp
      | false =>
          rw [hb] at hp
          cases hp

/-- While the flag is down, a reader that returns from a pause does not wait once more. -/
theorem resume_of_not_flag {l : Lock} (place : ReadWait) (hf : l.flag = false) (p : ReadWait) :
    (place.resume l).progress ≠ .paused p := by
  have hflag : (if place.isStarving then l.raise else l).flag = false := by
    split
    · exact hf
    · exact hf
  simp only [resume, if_neg (ne_true_of_eq_false hflag)]
  exact readAgain_ends _ _ p

end ReadWait

namespace Lock.Balanced

variable {l : Lock} {readers owners raisers : Nat}

/-- A reader that begins either registers, or it finds the flag taken and
waits with nothing at stake. -/
theorem read (h : l.Balanced readers owners raisers) :
    l.read.Meets
      (fun m place => place = .standing 1 ∧ m.flag = true ∧ m.Balanced readers owners raisers)
      (fun m _ => m.flag = false ∧ m.Balanced (readers + 1) owners raisers) := by
  rw [Lock.read]
  split
  · next hf => exact ⟨rfl, hf, h.arrive.depart⟩
  · next hf => exact ⟨Bool.not_eq_true _ ▸ hf, h.arrive⟩

theorem readAgain {π : Type} {raised : Bool} {wait : Lock → π → Prop}
    (h : l.Balanced readers owners (raisers + raised.toNat)) (hf : l.flag = false) :
    (l.readAgain raised).Meets wait
      (fun m _ => m.flag = false ∧ m.Balanced (readers + 1) owners raisers) := by
  rw [Lock.readAgain]
  cases raised with
  | false => exact ⟨hf, h.arrive⟩
  | true =>
      obtain ⟨m, hlower, hflag, hm⟩ := h.arrive.lower
      rw [if_pos rfl, hlower]
      exact ⟨hflag.trans hf, hm⟩

/-- A reader that returns from a pause goes in if the flag is down. The barrier
needs room for one more raise if the reader is about to raise it. -/
theorem resume {place : ReadWait}
    (h : l.Balanced readers owners (raisers + place.raised.toNat))
    (few : place.isStarving = true → raisers + 1 < 2 ^ 31) :
    (place.resume l).Meets
      (fun m place' => place' = place.next ∧ m.flag = true ∧ l.flag = true ∧
        m.Balanced readers owners (raisers + place'.raised.toNat))
      (fun m _ => m.flag = false ∧ l.flag = false ∧ m.Balanced (readers + 1) owners raisers) := by
  have hm : (if place.isStarving then l.raise else l).Balanced readers owners
      (raisers + place.next.raised.toNat) := by
    cases hs : place.isStarving with
    | false =>
        have hnext : place.next.raised = place.raised := by simp [ReadWait.next, hs]
        rw [hnext]
        exact h
    | true =>
        have hraised : place.raised = false := by
          simp only [ReadWait.isStarving, Bool.and_eq_true, Bool.not_eq_true'] at hs
          exact hs.2
        have hnext : place.next.raised = true := by simp [ReadWait.next, hs]
        rw [hraised] at h
        rw [hnext]
        exact h.raise (few hs)
  have hflag : (if place.isStarving then l.raise else l).flag = l.flag := by
    split <;> rfl
  refine Stride.Meets.log_iff.mpr ?_
  generalize (if place.isStarving then l.raise else l) = m at hm hflag
  rw [← hflag]
  cases hf : m.flag with
  | true => exact ⟨rfl, hf, rfl, hm⟩
  | false =>
      exact (hm.readAgain hf).mono (fun _ _ => id) (fun _ _ hin => ⟨hin.1, rfl, hin.2⟩)

/-- A writer that owns the flag waits for the readers to leave. -/
theorem writeDrain (h : l.Balanced readers (owners + 1) raisers) :
    l.writeDrain.Meets
      (fun m place => place = .drain ∧ m = l ∧
        m.Balanced readers (owners + place.isDrain.toNat) raisers)
      (fun m _ => m.isEmpty = true ∧ m.Balanced readers (owners + 1) raisers) := by
  rw [Lock.writeDrain]
  split
  · next he => exact ⟨he, h⟩
  · exact ⟨rfl, rfl, h⟩

theorem writeFlag (h : l.Balanced readers owners raisers) :
    l.writeFlag.Meets
      (fun m place => m.Balanced readers (owners + place.isDrain.toNat) raisers)
      (fun m _ => m.isEmpty = true ∧ m.Balanced readers (owners + 1) raisers) := by
  rw [Lock.writeFlag]
  cases hf : l.flag with
  | false =>
      obtain rfl := h.owners_eq_zero hf
      obtain ⟨m, hclaim, hm, -⟩ := h.claim
      rw [hclaim]
      have hdrain : m.Balanced readers (0 + 1) raisers := hm
      exact hdrain.writeDrain.mono (fun _ _ hp => hp.2.2) (fun _ _ => id)
  | true =>
      rw [claim_of_flag hf]
      exact h

theorem write (h : l.Balanced readers owners raisers) :
    l.write.Meets
      (fun m place => m.Balanced readers (owners + place.isDrain.toNat) raisers)
      (fun m _ => m.isEmpty = true ∧ m.Balanced readers (owners + 1) raisers) := by
  rw [Lock.write]
  split
  · exact h
  · exact h.writeFlag

/-- Whatever a writer waits for, it gets in with the flag and no readers. -/
theorem resumeWrite {place : WriteWait}
    (h : l.Balanced readers (owners + place.isDrain.toNat) raisers) :
    (place.resume l).Meets
      (fun m place' => m.Balanced readers (owners + place'.isDrain.toNat) raisers)
      (fun m _ => m.isEmpty = true ∧ m.Balanced readers (owners + 1) raisers) := by
  cases place with
  | barrier => exact h.write
  | flag => exact h.writeFlag
  | drain => exact h.writeDrain.mono (fun _ _ hp => hp.2.2) (fun _ _ => id)

end Lock.Balanced

/-- A writer that has to wait once more would not get further if it were let go
on at once. -/
theorem WriteWait.resume_settles (place : WriteWait) (l : Lock) :
    (place.resume l).Meets (fun m place' => place'.resume m = .pauseAt m place')
      fun _ _ => True := by
  have drain : ∀ m : Lock, m.writeDrain.Meets
      (fun m place' => place'.resume m = .pauseAt m place') fun _ _ => True := by
    intro m
    rw [Lock.writeDrain]
    split
    · trivial
    · next he => exact if_neg he
  have flag : l.writeFlag.Meets (fun m place' => place'.resume m = .pauseAt m place')
      fun _ _ => True := by
    rw [Lock.writeFlag]
    cases hf : l.flag with
    | true =>
        rw [Lock.claim_of_flag hf]
        change l.writeFlag = .pauseAt l .flag
        rw [Lock.writeFlag, Lock.claim_of_flag hf]
    | false =>
        rw [Lock.claim_of_not_flag hf]
        exact drain _
  cases place with
  | barrier =>
      rw [resume, Lock.write]
      split
      · next hb => exact if_pos hb
      · exact flag
  | flag => exact flag
  | drain => exact drain l

end ReaderWriter
