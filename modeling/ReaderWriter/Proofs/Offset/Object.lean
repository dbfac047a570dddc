import ReaderWriter.Proofs.Offset.Payload
import ReaderWriter.Session.Step

/-!
# Objects and calls with the counters moved on

A call looks at its object through the lock or the payload inside, so it makes the
same strides on an object whose counters are moved on, however far it is let go on.
The same goes for the uses of a guard, for tearing an object down, and for the steps
that touch one word each.

Only two steps look at a counter by itself: one prints it, and one sets it. The one
that sets counters has to set both, and to set them further on; then it makes no
difference either.
-/

namespace ReaderWriter

namespace Object

/-- The object with the counters of its lock moved on, if it has a lock of ours. -/
def ahead (k : UInt32) : Object → Object
  | .bare lock => .bare (lock.ahead k)
  | .vector lock values => .vector (lock.ahead k) values
  | .payload p => .payload (p.ahead k)

variable (k : UInt32) (o : Object)

@[simp] theorem ahead_zero : o.ahead 0 = o := by
  cases o <;> simp [ahead]

@[simp] theorem ahead_lock? : (o.ahead k).lock? = o.lock?.map (Lock.ahead k) := by
  cases o with
  | bare lock => rfl
  | vector lock values => rfl
  | payload p => exact p.ahead_lock? k

@[simp] theorem ahead_withLock (l : Lock) :
    (o.ahead k).withLock (l.ahead k) = (o.withLock l).ahead k := by
  cases o with
  | bare lock => rfl
  | vector lock values => rfl
  | payload p =>
      obtain ⟨scheme, store⟩ := p
      cases scheme <;> rfl

end Object

/-! ## Calls -/

namespace LockCall

variable (k : UInt32) (l : Lock)

@[simp] theorem ahead_acquire (guard? : Option String) (mode : Mode) :
    acquire guard? mode (l.ahead k) = (acquire guard? mode l).within (Lock.ahead k) := by
  cases mode with
  | read => rw [acquire, Lock.ahead_read, Stride.relabel_within, acquire]
  | write => rw [acquire, Lock.ahead_write, Stride.relabel_within, acquire]

@[simp] theorem ahead_untilEmpty :
    untilEmpty (l.ahead k) = (untilEmpty l).within (Lock.ahead k) := by
  rw [untilEmpty, Lock.ahead_awaitEmpty, Stride.relabel_within, untilEmpty]

@[simp] theorem ahead_untilLowered :
    untilLowered (l.ahead k) = (untilLowered l).within (Lock.ahead k) := by
  rw [untilLowered, Lock.ahead_awaitLowered, Stride.relabel_within, untilLowered]

theorem ahead_resume (call : LockCall) :
    resume (l.ahead k) call = (resume l call).within (Lock.ahead k) := by
  cases call with
  | read guard? place => rw [resume, ReadWait.resume_ahead, Stride.relabel_within, resume]
  | write guard? place => rw [resume, WriteWait.resume_ahead, Stride.relabel_within, resume]
  | awaitEmpty => exact ahead_untilEmpty k l
  | awaitLowered => exact ahead_untilLowered k l

end LockCall

namespace PayloadCall

variable (k : UInt32) (p : Payload)

@[simp] theorem ahead_enter (a : Access) :
    enter (p.ahead k) a = (enter p a).within (Payload.ahead k) := by
  rw [enter, Payload.ahead_access, Stride.relabel_within, enter]

@[simp] theorem ahead_walkThrough (plan : Plan) :
    walkThrough (p.ahead k) plan = (walkThrough p plan).within (Payload.ahead k) := by
  rw [walkThrough, Payload.ahead_walk, Stride.relabel_within, walkThrough]

theorem ahead_resume (call : PayloadCall) :
    resume (p.ahead k) call = (resume p call).within (Payload.ahead k) := by
  cases call with
  | access place => rw [resume, Payload.ahead_resume, Stride.relabel_within, resume]
  | walk reads writes place =>
      rw [resume, Payload.ahead_resumeWalk, Stride.relabel_within, resume]

end PayloadCall

namespace Call

variable (k : UInt32) (o : Object)

@[simp] theorem ahead_strideOnLock (s : Stride Lock LockCall Ending) :
    strideOnLock (o.ahead k) (s.within (Lock.ahead k)) =
      (strideOnLock o s).within (Object.ahead k) := by
  have hput : (o.ahead k).withLock ∘ Lock.ahead k = Object.ahead k ∘ o.withLock :=
    funext (o.ahead_withLock k)
  rw [strideOnLock, Stride.within_within, hput, ← Stride.within_within, Stride.relabel_within,
    strideOnLock]

@[simp] theorem ahead_strideOnPayload (s : Stride Payload PayloadCall Ending) :
    strideOnPayload (s.within (Payload.ahead k)) = (strideOnPayload s).within (Object.ahead k) :=
  Stride.relabel_within (Object.ahead k) (s.within .payload) Call.onPayload id

theorem ahead_resume? (call : Call) :
    call.resume? (o.ahead k) = (call.resume? o).map (Stride.within · (Object.ahead k)) := by
  cases call with
  | onLock call =>
      rw [resume?, resume?, Object.ahead_lock?, Option.map_map, Option.map_map]
      apply congrFun
      apply congrArg
      funext l
      simp only [Function.comp, LockCall.ahead_resume, ahead_strideOnLock]
  | onPayload call =>
      cases o with
      | payload p =>
          change some (strideOnPayload (call.resume (p.ahead k))) = _
          rw [PayloadCall.ahead_resume, ahead_strideOnPayload]
          rfl
      | _ => rfl

/-- However far a call is let go on, it makes the same strides. -/
theorem ahead_goOn (turns : Nat) (s : Stride Object Call Ending) :
    goOn turns (s.within (Object.ahead k)) =
      (goOn turns s).map (Stride.within · (Object.ahead k)) := by
  induction turns generalizing s with
  | zero => rfl
  | succ turns ih =>
      obtain ⟨o, log, progress⟩ := s
      cases progress with
      | paused call =>
          simp only [goOn, Stride.progress_within, Stride.state_within, ahead_resume?]
          cases call.resume? o with
          | none => rfl
          | some t => exact ih { t with log := log ++ t.log }
      | finished ending => rfl
      | violated breach => rfl

end Call

/-! ## Steps -/

/-- The step that sets the counters it sets further on. -/
def Instant.ahead (k : UInt32) : Instant → Instant
  | .preset ingress egress barrier flag =>
    .preset (ingress.map (· + k)) (egress.map (· + k)) barrier flag
  | what => what

/-- The step does not print the counters, and it sets both of them or neither. -/
def Instant.isBlind : Instant → Bool
  | .describe => false
  | .preset ingress egress _ _ => ingress.isSome == egress.isSome
  | _ => true

theorem Instant.ahead_run (k : UInt32) (l : Lock) {what : Instant} (h : what.isBlind = true) :
    (what.ahead k).run (l.ahead k) = (what.run l).map (Lock.ahead k) id := by
  cases what with
  | describe => cases h
  | preset ingress egress barrier flag =>
      cases ingress with
      | none =>
          cases egress with
          | none => rfl
          | some e => cases h
      | some i =>
          cases egress with
          | none => cases h
          | some e => rfl
  | tryAcquire mode => simp only [ahead, run, Lock.ahead_tryAcquire, Prod.map_map]; rfl
  | unlock mode => simp only [ahead, run, Lock.ahead_unlock, Prod.map_map]; rfl
  | tryUpgrade => simp only [ahead, run, Lock.ahead_tryUpgrade, Prod.map_map]; rfl
  | downgrade => simp only [ahead, run, Lock.ahead_downgrade, Prod.map_map]; rfl
  | arrive => simp only [ahead, run, Lock.ahead_arrive]; rfl
  | depart => simp only [ahead, run, Lock.ahead_depart]; rfl
  | isEmpty => simp only [ahead, run, Lock.ahead_isEmpty]; rfl
  | raise => rfl
  | lower => rfl
  | claim => rfl
  | release => simp only [ahead, run, Lock.ahead_release, Prod.map_map]; rfl

@[simp] theorem Waiting.ahead_start (k : UInt32) (l : Lock) (what : Waiting) :
    what.start (l.ahead k) = (what.start l).within (Lock.ahead k) := by
  cases what with
  | acquire mode => exact LockCall.ahead_acquire k l none mode
  | awaitEmpty => exact LockCall.ahead_untilEmpty k l
  | awaitLowered => exact LockCall.ahead_untilLowered k l

@[simp] theorem TearDown.ahead_run? (k : UInt32) (o : Object) (how : TearDown) :
    how.run? (o.ahead k) = how.run? o := by
  have hclose : ∀ {σ τ : Type} (s : Stride σ Empty Unit) (put : σ → τ) (reply : Reply),
      close (s.within put) reply = close s reply := fun _ _ _ => rfl
  cases how with
  | drop =>
      cases o with
      | bare l => simp only [run?, Object.ahead, Lock.ahead_destroy, hclose]
      | _ => rfl
  | dropUnwinding => cases o <;> rfl
  | intoInner =>
      cases o with
      | vector l values => simp only [run?, Object.ahead, Lock.ahead_destroy, hclose]
      | _ => rfl
  | finish =>
      cases o with
      | payload p => simp only [run?, Object.ahead, Payload.ahead_finish, hclose]
      | _ => rfl

/-- The outcome with the counters of the lock moved on. -/
def GuardOutcome.ahead (k : UInt32) (r : GuardOutcome) : GuardOutcome :=
  { r with lock := r.lock.ahead k }

theorem GuardUse.ahead_run? (k : UInt32) (l : Lock) (values : List Int) (mode : Mode)
    (use : GuardUse) :
    use.run? (l.ahead k) values mode = (use.run? l values mode).map (GuardOutcome.ahead k) := by
  cases use with
  | upgrade =>
      cases mode with
      | read =>
          simp only [run?, Lock.ahead_tryUpgrade]
          obtain ⟨m, answer⟩ := l.tryUpgrade
          cases answer <;> rfl
      | write => rfl
  | downgrade =>
      cases mode with
      | read => rfl
      | write =>
          simp only [run?, Lock.ahead_downgrade]
          obtain ⟨m, answer⟩ := l.downgrade
          cases answer <;> rfl
  | release =>
      cases mode with
      | read => simp only [run?, Lock.ahead_unlock]; rfl
      | write => simp only [run?, Lock.ahead_unlock]; rfl
  | get => cases mode <;> rfl
  | push value => cases mode <;> rfl
  | pop => cases mode <;> rfl
  | forget => cases mode <;> rfl

end ReaderWriter
