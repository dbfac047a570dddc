import ReaderWriter.Proofs.Offset.Object
import ReaderWriter.Proofs.Session.Moves

/-!
# Sessions with the counters moved on

Every object of a session has an offset of its own, by its number. A turn does to the
session that is moved on what it does to the session, and is answered alike: in the
reply, in the log, and in the object but for its offset.

A lock that the turn makes starts at zero in any session, so there the offset has to
be nothing.
-/

namespace ReaderWriter

namespace Step

/-- The step that sets counters sets them further on. -/
def ahead (k : UInt32) : Step → Step
  | .instant what => .instant (what.ahead k)
  | step => step

/-- The step does not print counters and sets both of a lock or neither, and an object
is made only where there is no offset. -/
def isBlind (k : UInt32) : Step → Bool
  | .instant what => what.isBlind
  | .create _ => k == 0
  | _ => true

end Step

namespace Turn

/-- The turn with its step moved on by the offset of its object. -/
def ahead (k : Nat → UInt32) (t : Turn) : Turn :=
  { t with step := t.step.ahead (k t.object) }

/-- The turn goes on alike wherever the counters stand. -/
def IsBlind (k : Nat → UInt32) (t : Turn) : Prop :=
  t.step.isBlind (k t.object) = true

instance (k : Nat → UInt32) (t : Turn) : Decidable (t.IsBlind k) :=
  inferInstanceAs (Decidable (_ = true))

end Turn

namespace Session

/-- The session with the counters of all its locks moved on. -/
def ahead (k : Nat → UInt32) (s : Session) : Session :=
  { s with objects := s.objects.map fun key => Object.ahead (k key) }

variable (k : Nat → UInt32) (s : Session) (actor key : Nat)

@[simp] theorem ahead_get? : (s.ahead k).objects.get? key =
    (s.objects.get? key).map (Object.ahead (k key)) :=
  Registry.get?_map _ _ _

@[simp] theorem ahead_withObject (o : Object) :
    (s.ahead k).withObject key (o.ahead (k key)) = (s.withObject key o).ahead k :=
  congrArg (fun objects => { s with objects })
    (Registry.insert_map (fun key => Object.ahead (k key)) s.objects key o)

@[simp] theorem ahead_withGuard (name : String) (guard? : Option Guard) :
    (s.ahead k).withGuard name guard? = (s.withGuard name guard?).ahead k := by
  cases guard? <;> rfl

@[simp] theorem ahead_settle (pauses : Nat) (t : Stride Object Call Ending) :
    (s.ahead k).settle actor key pauses (t.within (Object.ahead (k key))) =
      (s.settle actor key pauses t).map (ahead k) id := by
  obtain ⟨o, log, progress⟩ := t
  simp only [settle, Stride.within, ahead_withObject]
  cases progress with
  | paused call => rfl
  | violated breach => rfl
  | finished ending => cases ending <;> rfl

theorem ahead_resume (turns : Nat) (c : Stopped) :
    (s.ahead k).resume actor turns c = (s.resume actor turns c).map (ahead k) id := by
  rw [resume, resume, ahead_get?]
  cases s.objects.get? c.object with
  | none => rfl
  | some o =>
      have hpause : (.pauseAt (o.ahead (k c.object)) c.call : Stride Object Call Ending) =
          (Stride.pauseAt o c.call).within (Object.ahead (k c.object)) := rfl
      simp only [Option.map_some, hpause, Call.ahead_goOn]
      cases Call.goOn (max turns 1) (.pauseAt o c.call) with
      | none => rfl
      | some t => exact ahead_settle k s actor c.object _ t

theorem ahead_makeGuard (o : Object) (l : Lock) (name : String) (mode : Mode) :
    (s.ahead k).makeGuard actor key (o.ahead (k key)) (l.ahead (k key)) name mode =
      (s.makeGuard actor key o l name mode).map (ahead k) id := by
  have htaken : (s.ahead k).nameTaken name = s.nameTaken name := rfl
  rw [makeGuard, makeGuard, htaken]
  split
  · rfl
  · rw [LockCall.ahead_acquire, Call.ahead_strideOnLock]
    exact ahead_settle k s actor key 1 _

theorem ahead_tryGuard (o : Object) (l : Lock) (name : String) (mode : Mode) :
    (s.ahead k).tryGuard key (o.ahead (k key)) (l.ahead (k key)) name mode =
      (s.tryGuard key o l name mode).map (ahead k) id := by
  have htaken : (s.ahead k).nameTaken name = s.nameTaken name := rfl
  rw [tryGuard, tryGuard, htaken]
  split
  · rfl
  · rw [Lock.ahead_tryAcquire]
    obtain ⟨m, answer⟩ := l.tryAcquire mode
    cases answer with
    | ok =>
        simp only [Prod.map, id, Object.ahead_withLock, ahead_withObject, ahead_withGuard]
    | error why =>
        simp only [Prod.map, id, Object.ahead_withLock, ahead_withObject]

theorem ahead_useGuard (name : String) (use : GuardUse) :
    (s.ahead k).useGuard name use = (s.useGuard name use).map (ahead k) id := by
  have hguards : (s.ahead k).guards = s.guards := rfl
  rw [useGuard, useGuard, hguards]
  cases s.guards.get? name with
  | none => rfl
  | some g =>
      simp only [ahead_get?]
      cases s.objects.get? g.object with
      | none => rfl
      | some o =>
          cases o with
          | bare l => rfl
          | payload p => rfl
          | vector l values =>
              simp only [Option.map_some, Object.ahead, GuardUse.ahead_run?]
              cases use.run? l values g.mode with
              | none => rfl
              | some r =>
                  have hvector := ahead_withObject k s g.object (.vector r.lock r.values)
                  simp only [Object.ahead] at hvector
                  simp only [Option.map_some, GuardOutcome.ahead, hvector, ahead_withGuard]
                  rfl

@[simp] theorem ahead_launch (t : Stride Object Call Ending) :
    (s.ahead k).launch actor key (t.within (Object.ahead (k key))) =
      (s.launch actor key t).map (ahead k) id :=
  ahead_settle k s actor key 1 t

theorem ahead_onLock (o : Object) {f f' : Lock → Session × Reply × List Record}
    (h : ∀ l, f' (l.ahead (k key)) = (f l).map (ahead k) id) :
    (s.ahead k).onLock (o.ahead (k key)) f' = (s.onLock o f).map (ahead k) id := by
  rw [onLock, onLock, Object.ahead_lock?]
  cases o.lock? with
  | none => rfl
  | some l => exact h l

theorem ahead_tearDown (o : Object) (how : TearDown) :
    (s.ahead k).act actor key (o.ahead (k key)) (.tearDown how) =
      (s.act actor key o (.tearDown how)).map (ahead k) id := by
  have hused : (s.ahead k).inUse key = s.inUse key := rfl
  have herase : (s.ahead k).objects.erase key = _ :=
    Registry.erase_map (fun key => Object.ahead (k key)) s.objects key
  rw [act, act, hused, TearDown.ahead_run?]
  split
  · rfl
  · cases how.run? o with
    | none => rfl
    | some outcome =>
        simp only [herase]
        rfl

/-- A step on an object, of an actor that is not stopped. -/
theorem ahead_act (o : Object) {step : Step} (h : (⟨actor, key, step⟩ : Turn).IsBlind k) :
    (s.ahead k).act actor key (o.ahead (k key)) (step.ahead (k key)) =
      (s.act actor key o step).map (ahead k) id := by
  cases step with
  | instant what =>
      refine ahead_onLock k s key o fun l => ?_
      have hrun := Instant.ahead_run (k key) l h
      simp only [hrun, Prod.map, id, Object.ahead_withLock, ahead_withObject]
  | waiting what =>
      refine ahead_onLock k s key o fun l => ?_
      rw [Waiting.ahead_start, Call.ahead_strideOnLock, ahead_launch]
  | tearDown how => exact ahead_tearDown k s actor key o how
  | read name =>
      cases o with
      | bare l => rfl
      | vector l values => exact ahead_makeGuard k s actor key (.vector l values) l name .read
      | payload p =>
          simp only [Step.ahead, Object.ahead, act, PayloadCall.ahead_enter,
            Call.ahead_strideOnPayload, ahead_launch]
  | write name value =>
      cases o with
      | bare l => rfl
      | vector l values => exact ahead_makeGuard k s actor key (.vector l values) l name .write
      | payload p =>
          simp only [Step.ahead, Object.ahead, act, PayloadCall.ahead_enter,
            Call.ahead_strideOnPayload, ahead_launch]
  | tryGuard name mode =>
      cases o with
      | vector l values => exact ahead_tryGuard k s key (.vector l values) l name mode
      | _ => rfl
  | guard name use =>
      cases o with
      | vector l values => exact ahead_useGuard k s name use
      | _ => rfl
  | isLocked =>
      cases o with
      | vector l values =>
          simp only [Step.ahead, Object.ahead, act, Lock.ahead_isLocked]
          rfl
      | _ => rfl
  | isWriteLocked => cases o <;> rfl
  | name =>
      cases o with
      | payload p =>
          simp only [Step.ahead, Object.ahead, act, Payload.ahead_name]
          rfl
      | _ => rfl
  | walk request =>
      cases o with
      | payload p =>
          simp only [Step.ahead, Object.ahead, act]
          cases request.draw? with
          | none => rfl
          | some plan =>
              simp only [PayloadCall.ahead_walkThrough, Call.ahead_strideOnPayload, ahead_launch]
      | _ => rfl
  | resume turns => rfl
  | create design => rfl
  | unknown => rfl

theorem ahead_create (design : Object.Design) (h : k key = 0) :
    (s.ahead k).take ⟨actor, key, .create design⟩ =
      (s.take ⟨actor, key, .create design⟩).map (ahead k) id := by
  have hstopped : (s.ahead k).stopped = s.stopped := rfl
  have hthere : (s.ahead k).objects.contains key = s.objects.contains key :=
    Registry.contains_map _ _ _
  rw [take, take, hstopped]
  cases s.stopped.get? actor with
  | some c => rfl
  | none =>
      simp only [hthere]
      split
      · rfl
      · cases design.build? with
        | none => rfl
        | some o =>
            have hobject := ahead_withObject k s key o
            rw [h, Object.ahead_zero] at hobject
            simp only [hobject]
            rfl

/-- What a turn does, it does to the session that is moved on. -/
theorem ahead_take {t : Turn} (h : t.IsBlind k) :
    (s.ahead k).take (t.ahead k) = (s.take t).map (ahead k) id := by
  obtain ⟨actor, key, step⟩ := t
  have hresume : (step.ahead (k key)).isResume = step.isResume := by
    cases step <;> rfl
  have honObject : (step.ahead (k key)).isOnObject = step.isOnObject := by
    cases step <;> rfl
  have hturn : ∀ turns, (⟨actor, key, .resume turns⟩ : Turn).ahead k =
      ⟨actor, key, .resume turns⟩ := fun _ => rfl
  have hstopped : (s.ahead k).stopped = s.stopped := rfl
  cases hget : s.stopped.get? actor with
  | some c =>
      obtain ⟨turns, rfl⟩ | hr := step.resume_or_not
      · rw [hturn, take_resume hget, take_resume (hstopped ▸ hget)]
        exact ahead_resume k s actor turns c
      · rw [Turn.ahead, take_of_stopped hget hr,
          take_of_stopped (hstopped ▸ hget) (hresume.trans hr)]
        rfl
  | none =>
      cases hon : step.isOnObject with
      | true =>
          have hobject := ahead_get? k s key
          rw [Turn.ahead]
          cases ho : s.objects.get? key with
          | none =>
              rw [ho] at hobject
              rw [take_of_absent hget ho hon,
                take_of_absent (hstopped ▸ hget) hobject (honObject.trans hon)]
              rfl
          | some o =>
              rw [ho] at hobject
              rw [take_of_free hget ho hon,
                take_of_free (hstopped ▸ hget) hobject (honObject.trans hon)]
              exact ahead_act k s actor key o h
      | false =>
          cases step with
          | resume turns =>
              rw [hturn, take, take, hstopped, hget]
              rfl
          | create design => exact ahead_create k s actor key design (eq_of_beq h)
          | _ => cases hon

end Session

/-- The answer with the counters of the object moved on. -/
def Answer.ahead (k : UInt32) (a : Answer) : Answer :=
  { a with object := a.object.map (Object.ahead k) }

/-- A turn is answered alike in the session that is moved on. -/
theorem Session.ahead_step (k : Nat → UInt32) (s : Session) {t : Turn} (h : t.IsBlind k) :
    (s.ahead k).step (t.ahead k) = (s.step t).map (ahead k) (Answer.ahead (k t.object)) := by
  have hobject : (t.ahead k).object = t.object := rfl
  rw [step, step, ahead_take k s h, hobject]
  simp only [Prod.map, ahead_get?]
  rfl

end ReaderWriter
