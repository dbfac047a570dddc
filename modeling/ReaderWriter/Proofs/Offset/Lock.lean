import ReaderWriter.Lock.Blocking

/-!
# A lock with its counters moved on

The counters of the readers start at zero and wrap, so where they stand says nothing
about the lock; only their difference does. To move both on by the same number is
therefore a symmetry: every operation does to the lock that is moved on what it does
to the lock, moved on, and it answers the same.

For each operation this is one equation. A comparison of the counters by size, or an
operation that touches one of them by anything but an addition, would break it.
-/

namespace ReaderWriter

namespace Stride

variable {σ τ π ρ α β : Type} (put : σ → τ)

/-- A call in two parts is seen on another state if both parts are. -/
theorem andThen_within {embed : π → ρ} {next : α → σ → Stride σ ρ β}
    {next' : α → τ → Stride τ ρ β}
    (h : ∀ result state, next' result (put state) = (next result state).within put)
    (s : Stride σ π α) :
    (s.within put).andThen embed next' = (s.andThen embed next).within put := by
  obtain ⟨state, log, progress⟩ := s
  cases progress with
  | paused place => rfl
  | violated breach => rfl
  | finished result =>
      simp only [andThen, within, h]

@[simp] theorem relabel_within (s : Stride σ π α) (embed : π → ρ) (f : α → β) :
    (s.within put).relabel embed f = (s.relabel embed f).within put :=
  andThen_within put (fun _ _ => rfl) s

@[simp] theorem within_within {υ : Type} (s : Stride σ π α) (put' : τ → υ) :
    (s.within put).within put' = s.within (put' ∘ put) := rfl

@[simp] theorem ofCheck_within (outcome : σ × Except Violation α) :
    (ofCheck (outcome.map put id) : Stride τ π α) = (ofCheck outcome).within put := by
  obtain ⟨state, answer⟩ := outcome
  cases answer <;> rfl

end Stride

namespace Lock

variable {π : Type}

/-- The lock with both counters of the readers moved on. -/
def ahead (k : UInt32) (l : Lock) : Lock :=
  { l with ingress := l.ingress + k, egress := l.egress + k }

variable (k : UInt32) (l : Lock)

@[simp] theorem ahead_zero : l.ahead 0 = l := by
  simp [ahead]

/-! ## What the words show -/

@[simp] theorem ahead_barrier : (l.ahead k).barrier = l.barrier := rfl

@[simp] theorem ahead_flag : (l.ahead k).flag = l.flag := rfl

@[simp] theorem ahead_registered : (l.ahead k).registered = l.registered := by
  simp only [registered, ahead]
  grind

@[simp] theorem ahead_isEmpty : (l.ahead k).isEmpty = l.isEmpty := by
  rw [Bool.eq_iff_iff, isEmpty_iff_registered, isEmpty_iff_registered, ahead_registered]

@[simp] theorem ahead_isBarred : (l.ahead k).isBarred = l.isBarred := by
  rw [isBarred, isBarred, ahead_barrier]

@[simp] theorem ahead_isIdle : (l.ahead k).isIdle = l.isIdle := by
  simp [isIdle]

@[simp] theorem ahead_isLocked : (l.ahead k).isLocked = l.isLocked := by
  simp [isLocked]

@[simp] theorem ahead_checkReleased : (l.ahead k).checkReleased = l.checkReleased := by
  simp [checkReleased]

/-! ## The parts of the lock -/

@[simp] theorem ahead_arrive : (l.ahead k).arrive = l.arrive.ahead k := by
  simp only [arrive, ahead, UInt32.add_assoc, UInt32.add_comm k]

@[simp] theorem ahead_depart : (l.ahead k).depart = l.depart.ahead k := by
  simp only [depart, ahead, UInt32.add_assoc, UInt32.add_comm k]

@[simp] theorem ahead_raise : (l.ahead k).raise = l.raise.ahead k := rfl

@[simp] theorem ahead_lower : (l.ahead k).lower = l.lower.map (ahead k) id := rfl

@[simp] theorem ahead_claim : (l.ahead k).claim = l.claim.map (ahead k) id := rfl

@[simp] theorem ahead_release : (l.ahead k).release = l.release.map (ahead k) id := by
  rw [release, release, ahead_flag]
  split <;> rfl

/-! ## Operations that never wait -/

theorem ahead_tryRead : (l.ahead k).tryRead = l.tryRead.map (ahead k) id := by
  simp only [tryRead, ahead_arrive, ahead_depart, ahead_flag]
  split <;> rfl

theorem ahead_tryWrite : (l.ahead k).tryWrite = l.tryWrite.map (ahead k) id := by
  simp only [tryWrite, ahead_isBarred, ahead_claim]
  obtain ⟨m, free⟩ := l.claim
  cases free with
  | false =>
      simp only [Prod.map, id]
      split <;> rfl
  | true =>
      simp only [Prod.map, id, ahead_isEmpty]
      split
      · rfl
      · split <;> rfl

theorem ahead_tryUpgrade : (l.ahead k).tryUpgrade = l.tryUpgrade.map (ahead k) id := by
  simp only [tryUpgrade, ahead_isBarred, ahead_claim, ahead_depart, ahead_arrive]
  obtain ⟨m, free⟩ := l.claim
  cases free with
  | false =>
      simp only [Prod.map, id]
      split <;> rfl
  | true =>
      simp only [Prod.map, id, ahead_depart, ahead_isEmpty]
      split
      · rfl
      · split <;> rfl

@[simp] theorem ahead_tryAcquire (mode : Mode) :
    (l.ahead k).tryAcquire mode = (l.tryAcquire mode).map (ahead k) id := by
  cases mode with
  | read => exact l.ahead_tryRead k
  | write => exact l.ahead_tryWrite k

@[simp] theorem ahead_downgrade : (l.ahead k).downgrade = l.downgrade.map (ahead k) id := by
  rw [downgrade, ahead_arrive, ahead_release, downgrade]

@[simp] theorem ahead_unlock (mode : Mode) :
    (l.ahead k).unlock mode = (l.unlock mode).map (ahead k) id := by
  cases mode with
  | read => exact congrArg (·, _) (l.ahead_depart k)
  | write => exact l.ahead_release k

/-! ## Operations that wait -/

@[simp] theorem ahead_read : (l.ahead k).read = l.read.within (ahead k) := by
  simp only [read, ahead_arrive, ahead_depart, ahead_flag]
  split <;> rfl

@[simp] theorem ahead_readAgain (raised : Bool) :
    ((l.ahead k).readAgain raised : Stride Lock π Unit) =
      (l.readAgain raised).within (ahead k) := by
  simp only [readAgain, ahead_arrive, ahead_lower]
  split
  · rw [Stride.ofCheck_within]
    exact Stride.andThen_within (ahead k) (fun _ _ => rfl) _
  · rfl

@[simp] theorem ahead_writeDrain : (l.ahead k).writeDrain = l.writeDrain.within (ahead k) := by
  simp only [writeDrain, ahead_isEmpty]
  split <;> rfl

@[simp] theorem ahead_writeFlag : (l.ahead k).writeFlag = l.writeFlag.within (ahead k) := by
  simp only [writeFlag, ahead_claim]
  obtain ⟨m, free⟩ := l.claim
  cases free with
  | false => rfl
  | true => exact m.ahead_writeDrain k

@[simp] theorem ahead_write : (l.ahead k).write = l.write.within (ahead k) := by
  simp only [write, ahead_isBarred, ahead_writeFlag]
  split <;> rfl

@[simp] theorem ahead_awaitEmpty : (l.ahead k).awaitEmpty = l.awaitEmpty.within (ahead k) := by
  simp only [awaitEmpty, ahead_isEmpty]
  split <;> rfl

@[simp] theorem ahead_awaitLowered :
    (l.ahead k).awaitLowered = l.awaitLowered.within (ahead k) := by
  simp only [awaitLowered, ahead_isBarred]
  split <;> rfl

@[simp] theorem ahead_destroy :
    ((l.ahead k).destroy : Stride Lock π Unit) = l.destroy.within (ahead k) := by
  have hcheck : (l.ahead k, (l.ahead k).checkReleased) =
      (l, l.checkReleased).map (ahead k) id := by
    rw [ahead_checkReleased]
    rfl
  rw [destroy, hcheck, Stride.ofCheck_within]
  exact Stride.andThen_within (ahead k) (fun _ _ => rfl) _

end Lock

theorem ReadWait.resume_ahead (place : ReadWait) (k : UInt32) (l : Lock) :
    place.resume (l.ahead k) = (place.resume l).within (Lock.ahead k) := by
  have hraise : (if place.isStarving then (l.ahead k).raise else l.ahead k) =
      (if place.isStarving then l.raise else l).ahead k := by
    split <;> rfl
  simp only [resume, hraise, Lock.ahead_flag, Lock.ahead_readAgain]
  generalize (if place.isStarving then l.raise else l) = m
  cases m.flag <;> rfl

theorem WriteWait.resume_ahead (place : WriteWait) (k : UInt32) (l : Lock) :
    place.resume (l.ahead k) = (place.resume l).within (Lock.ahead k) := by
  cases place with
  | barrier => exact l.ahead_write k
  | flag => exact l.ahead_writeFlag k
  | drain => exact l.ahead_writeDrain k

end ReaderWriter
