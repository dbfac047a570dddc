import Mathlib.Tactic.SplitIfs
import ReaderWriter.Proofs.Lock.Obstacle
import ReaderWriter.Session.Step

/-!
# Where the contract of a lock breaks

Which operations break the contract is a function of the words, and so are the words
that they leave: a step that gives the flag back when it is free, one that lowers the
barrier when it is not up, and a reader that comes back from its wait and lowers the
barrier then. What an operation does before it finds out is not undone.

A stride is foretold by what it will break, if anything, and by where it pauses. Those
who come to a pause are in a state in which they could be let go on and break nothing.
-/

namespace ReaderWriter

namespace Stride

variable {σ τ π ρ α β : Type}

/-- The violation that a stride ends in, with the state it leaves and its log. -/
def breach? (t : Stride σ π α) : Option (σ × Violation × List Record) :=
  match t.progress with
  | .violated breach => some (t.state, breach, t.log)
  | _ => none

/-- A stride breaks the contract just as foretold, and where it pauses `wait` holds. -/
structure Foretold (t : Stride σ π α) (breach? : Option (σ × Violation × List Record))
    (wait : σ → π → Prop) : Prop where
  breach : t.breach? = breach?
  pauses : ∀ place, t.progress = .paused place → wait t.state place

variable {t : Stride σ π α} {breach? : Option (σ × Violation × List Record)}

/-- To be foretold no breach is to be safe. -/
theorem foretold_none_iff {wait : σ → π → Prop} :
    t.Foretold none wait ↔ t.Meets wait fun _ _ => True := by
  obtain ⟨m, log, progress⟩ := t
  cases progress with
  | paused place =>
      refine ⟨fun h => h.pauses place rfl, fun h => ⟨rfl, fun _ hp => ?_⟩⟩
      cases hp
      exact h
  | finished result => exact ⟨fun _ => trivial, fun _ => ⟨rfl, fun _ hp => by cases hp⟩⟩
  | violated breach => exact ⟨fun h => (by cases h.breach), False.elim⟩

theorem foretold_violated {wait : σ → π → Prop} {m : σ} {log : List Record} {breach : Violation} :
    (⟨m, log, .violated breach⟩ : Stride σ π α).Foretold (some (m, breach, log)) wait :=
  ⟨rfl, fun _ hp => by cases hp⟩

theorem Foretold.mono {wait wait' : σ → π → Prop} (h : t.Foretold breach? wait)
    (himp : ∀ m place, wait m place → wait' m place) : t.Foretold breach? wait' :=
  ⟨h.breach, fun place hp => himp _ _ (h.pauses place hp)⟩

/-- If the first part of a call returns, the second must break nothing. -/
theorem Foretold.andThen {wait : σ → ρ → Prop} {embed : π → ρ} {next : α → σ → Stride σ ρ β}
    (h : t.Foretold breach? fun m place => wait m (embed place))
    (hnext : ∀ result, t.progress = .finished result →
      (next result t.state).Meets wait fun _ _ => True) :
    (t.andThen embed next).Foretold breach? wait := by
  obtain ⟨m, log, progress⟩ := t
  obtain ⟨rfl, hpauses⟩ := h
  cases progress with
  | paused place => exact ⟨rfl, fun _ hp => by cases hp; exact hpauses place rfl⟩
  | violated breach => exact foretold_violated
  | finished result =>
      have hwhole : (Stride.andThen ⟨m, log, .finished result⟩ embed next).Meets wait
          fun _ _ => True := Meets.andThen_iff.mpr (hnext result rfl)
      exact foretold_none_iff.mpr hwhole

theorem Foretold.relabel {wait : σ → ρ → Prop} {embed : π → ρ} {f : α → β}
    (h : t.Foretold breach? fun m place => wait m (embed place)) :
    (t.relabel embed f).Foretold breach? wait :=
  h.andThen fun _ _ => trivial

/-- What a stride breaks is seen on the larger state. -/
theorem Foretold.within {wait : τ → π → Prop} {put : σ → τ}
    (h : t.Foretold breach? fun m place => wait (put m) place) :
    (t.within put).Foretold (breach?.map fun u => (put u.1, u.2)) wait := by
  obtain ⟨m, log, progress⟩ := t
  obtain ⟨rfl, hpauses⟩ := h
  cases progress <;> exact ⟨rfl, hpauses⟩

end Stride

/-! ## Steps that never wait -/

namespace Lock

variable {l m : Lock} {what : Instant} {breach : Violation}

/-- A step breaks the contract on a lock, with the violation and the words it leaves. -/
inductive Misuse (l : Lock) : Instant → Violation → Lock → Prop
  /-- The flag is given back by somebody who does not have it. -/
  | unlock (free : l.flag = false) : Misuse l (.unlock .write) .notWriteLocked l
  | release (free : l.flag = false) : Misuse l .release .notWriteLocked l
  /-- The registration is made before the flag is given back, and it stays. -/
  | downgrade (free : l.flag = false) :
      Misuse l .downgrade .notWriteLocked { l with ingress := l.ingress + 1 }
  /-- The barrier goes down in any case, and from its least value to its greatest. -/
  | lower (down : l.barrier ≤ 0) :
      Misuse l .lower .barrierBelowZero { l with barrier := l.barrier - 1 }

theorem isBarred_eq_false_iff : l.isBarred = false ↔ l.barrier ≤ 0 := by
  rw [← Bool.not_eq_true, isBarred_iff, Int32.not_lt]

theorem release_eq_error_iff : l.release = (m, .error breach) ↔
    l.flag = false ∧ breach = .notWriteLocked ∧ m = l := by
  cases hf : l.flag <;> simp [Lock.release, hf, eq_comm, and_comm]

theorem downgrade_eq_error_iff : l.downgrade = (m, .error breach) ↔
    l.flag = false ∧ breach = .notWriteLocked ∧ m = { l with ingress := l.ingress + 1 } := by
  cases hf : l.flag <;> simp [downgrade_eq, hf, eq_comm, and_comm]

theorem lower_eq_error_iff : l.lower = (m, .error breach) ↔
    l.barrier ≤ 0 ∧ breach = .barrierBelowZero ∧ m = { l with barrier := l.barrier - 1 } := by
  rw [← isBarred_eq_false_iff]
  cases hb : l.isBarred <;> simp [Lock.lower, hb, eq_comm, and_comm]

/-- The misuses are just the steps that are answered with a violation. -/
theorem misuse_iff : l.Misuse what breach m ↔ what.run l = (m, .violated breach) := by
  have hcheck : ∀ outcome : Lock × Except Violation Unit,
      outcome.map id Reply.ofCheck = (m, .violated breach) ↔ outcome = (m, .error breach) := by
    intro outcome
    simp [Prod.ext_iff]
  constructor
  · intro h
    cases h with
    | unlock free => exact (hcheck _).mpr (release_eq_error_iff.mpr ⟨free, rfl, rfl⟩)
    | release free => exact (hcheck _).mpr (release_eq_error_iff.mpr ⟨free, rfl, rfl⟩)
    | downgrade free => exact (hcheck _).mpr (downgrade_eq_error_iff.mpr ⟨free, rfl, rfl⟩)
    | lower down => exact (hcheck _).mpr (lower_eq_error_iff.mpr ⟨down, rfl, rfl⟩)
  · intro h
    cases what with
    | unlock mode =>
        have hunlock := (hcheck _).mp h
        cases mode with
        | read => cases hunlock
        | write =>
            obtain ⟨free, rfl, rfl⟩ := release_eq_error_iff.mp hunlock
            exact .unlock free
    | release =>
        obtain ⟨free, rfl, rfl⟩ := release_eq_error_iff.mp ((hcheck _).mp h)
        exact .release free
    | downgrade =>
        obtain ⟨free, rfl, rfl⟩ := downgrade_eq_error_iff.mp ((hcheck _).mp h)
        exact .downgrade free
    | lower =>
        obtain ⟨down, rfl, rfl⟩ := lower_eq_error_iff.mp ((hcheck _).mp h)
        exact .lower down
    | tryAcquire mode => exact absurd (congrArg Prod.snd h) (Reply.ofAttempt_ne_violated _ _)
    | tryUpgrade => exact absurd (congrArg Prod.snd h) (Reply.ofAttempt_ne_violated _ _)
    | _ => cases h

/-- The check at the end of a lock looks at the flag, then at the readers. -/
theorem checkReleased_eq_error_iff : l.checkReleased = .error breach ↔
    breach = (if l.flag then .destroyedWriteLocked else .destroyedWithReaders) ∧
      (l.flag = true ∨ l.ingress ≠ l.egress) := by
  rw [checkReleased]
  cases hf : l.flag with
  | true => simp [eq_comm]
  | false =>
      by_cases he : l.isEmpty = true
      · simp [he, (isEmpty_iff l).mp he]
      · have hne : l.ingress ≠ l.egress := fun h => he ((isEmpty_iff l).mpr h.symm)
        simp [he, hne, eq_comm]

end Lock

/-! ## Calls that wait -/

namespace ReadWait

/-- The lock as a reader sees it that returns from its pause. -/
def roused (w : ReadWait) (l : Lock) : Lock :=
  if w.isStarving then l.raise else l

/-- What the reader logs that is out of patience. -/
def notice (w : ReadWait) : List Record :=
  if w.isStarving then [.outOfPatience w.spins] else []

/-- A reader gets in that has raised the barrier, and it finds that the barrier is not
up. The registration stays, and so does the attempt to lower. -/
def breach? (w : ReadWait) (l : Lock) : Option (Lock × Violation × List Record) :=
  if l.flag = false ∧ w.next.raised = true ∧ (w.roused l).barrier ≤ 0 then
    some ({ w.roused l with ingress := l.ingress + 1, barrier := (w.roused l).barrier - 1 },
      .barrierBelowZero, w.notice)
  else none

@[simp] theorem roused_flag (w : ReadWait) (l : Lock) : (w.roused l).flag = l.flag := by
  rw [roused]
  split <;> rfl

@[simp] theorem roused_ingress (w : ReadWait) (l : Lock) :
    (w.roused l).ingress = l.ingress := by
  rw [roused]
  split <;> rfl

/-- While the flag is taken a reader gets to no breach. -/
theorem breach?_of_flag (w : ReadWait) {l : Lock} (hf : l.flag = true) : w.breach? l = none := by
  simp [breach?, hf]

/-- A reader's stride goes by the flag, by its raise of the barrier and by the barrier. -/
theorem resume_foretold (w : ReadWait) (l : Lock) :
    (w.resume l).Foretold (w.breach? l) fun m w' => w'.breach? m = none := by
  have hresume : w.resume l =
      let s := if (w.roused l).flag then .pauseAt (w.roused l) w.next
        else (w.roused l).readAgain w.next.raised
      { s with log := w.notice ++ s.log } := rfl
  rw [hresume, roused_flag]
  cases hf : l.flag with
  | true =>
      rw [breach?_of_flag w hf]
      refine ⟨rfl, fun place hp => ?_⟩
      cases hp
      exact breach?_of_flag _ ((w.roused_flag l).trans hf)
  | false =>
      rw [if_neg Bool.false_ne_true, Lock.readAgain]
      cases hr : w.next.raised with
      | false =>
          exact ⟨by simp [breach?, hr, Stride.breach?, Stride.done], fun _ hp => by cases hp⟩
      | true =>
          rw [if_pos rfl]
          by_cases hdown : (w.roused l).barrier ≤ 0
          · have hlower : (w.roused l).arrive.lower = (_, .error .barrierBelowZero) :=
              Lock.lower_eq_error_iff.mpr ⟨hdown, rfl, rfl⟩
            rw [hlower]
            refine ⟨?_, fun _ hp => by cases hp⟩
            simp [breach?, hf, hr, hdown, Stride.breach?, Lock.arrive]
          · have hup : (w.roused l).arrive.isBarred = true := by
              rw [← Bool.not_eq_false, Lock.isBarred_eq_false_iff]
              exact hdown
            rw [Lock.lower, hup]
            exact ⟨by simp [breach?, hdown, Stride.breach?], fun _ hp => by cases hp⟩

end ReadWait

namespace Lock

/-- A reader stops only while the flag is taken. -/
theorem read_meets (l : Lock) : l.read.Meets (fun m w => w.breach? m = none) fun _ _ => True := by
  rw [read]
  split
  · next hf => exact ReadWait.breach?_of_flag _ hf
  · trivial

end Lock

/-- A writer stops in its drain only while there are readers, and it comes out of an
earlier wait with the flag. -/
theorem WriteWait.resume_meets (place : WriteWait) (l : Lock) :
    (place.resume l).Meets (fun m w => w = .drain → m.isEmpty = false)
      fun m _ => m = place.owning l ∧ (place = .drain → l.isEmpty = true) := by
  rw [resume_eq]
  cases hhalt : place.halt? l with
  | none =>
      refine ⟨rfl, ?_⟩
      rintro rfl
      exact halt?_eq_none_iff.mp hhalt .drain (Nat.le_refl _)
  | some w =>
      rintro rfl
      have hstop : l.isEmpty = false := (of_halt? hhalt).2.1
      rw [Stride.state_pauseAt, if_pos rfl, owning]
      split <;> exact hstop

end ReaderWriter
