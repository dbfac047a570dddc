import ReaderWriter.Proofs.Contract
import ReaderWriter.Proofs.Registry
import ReaderWriter.Session.Step

/-!
# What a turn does to a session

A turn that is not in vain does one of a few things: it sets or removes the
object it is about, it takes a call to the end of a stride, or it makes or uses
a guard. Which of them are possible, and under what conditions, is said once
here, so that what holds of all turns need not look at every step.

A call that will make a guard keeps the guard's name through all of its
strides.
-/

namespace ReaderWriter

namespace Step

/-- The step goes on with a call that is stopped. -/
def isResume : Step → Bool
  | .resume _ => true
  | _ => false

theorem resume_or_not (step : Step) :
    (∃ turns, step = .resume turns) ∨ step.isResume = false := by
  cases step with
  | resume turns => exact .inl ⟨turns, rfl⟩
  | _ => exact .inr rfl

/-- The step is one on an object that has to be there. -/
def isOnObject : Step → Bool
  | .resume _ | .create _ => false
  | _ => true

/-- The guard that a step on a vector begins to make. -/
def guardMade? : Step → Option (String × Mode)
  | .read made => some (made, .read)
  | .write made _ => some (made, .write)
  | _ => none

end Step

/-- The name of the guard that comes into being with an ending. -/
def Ending.guardName? : Ending → Option String
  | .guard name _ => some name
  | .plain | .walked _ _ => none

@[simp] theorem Ending.guardName?_ofHold (guard? : Option String) (mode : Mode) :
    (Ending.ofHold guard? mode).guardName? = guard? := by
  cases guard? <;> rfl

namespace Call

/-- The stride is one of a call that makes a guard with the name, or none. -/
def Names (name? : Option String) (s : Stride Object Call Ending) : Prop :=
  s.Allows (fun call => call.guard? = name?) fun ending => ending.guardName? = name?

variable {name? : Option String} {o : Object} {s : Stride Object Call Ending}

theorem names_strideOnLock {s : Stride Lock LockCall Ending}
    (h : s.Allows (fun call => call.guard? = name?) fun ending => ending.guardName? = name?) :
    Names name? (strideOnLock o s) := by
  obtain ⟨m, log, progress⟩ := s
  cases progress with
  | paused call => exact h
  | finished ending => exact h
  | violated breach => trivial

theorem names_strideOnPayload {s : Stride Payload PayloadCall Ending}
    (h : s.Allows (fun _ => True) fun ending => ending.guardName? = none) :
    Names none (strideOnPayload s) := by
  obtain ⟨m, log, progress⟩ := s
  cases progress with
  | paused call => rfl
  | finished ending => exact h
  | violated breach => trivial

theorem names_acquire (guard? : Option String) (mode : Mode) (l : Lock) :
    Names guard? (strideOnLock o (LockCall.acquire guard? mode l)) := by
  apply names_strideOnLock
  cases mode with
  | read => exact Stride.relabel_allows _ (fun _ => rfl) (by simp)
  | write => exact Stride.relabel_allows _ (fun _ => rfl) (by simp)

theorem names_waiting (what : Waiting) (l : Lock) : Names none (strideOnLock o (what.start l)) := by
  cases what with
  | acquire mode => exact names_acquire none mode l
  | awaitEmpty =>
      exact names_strideOnLock (Stride.relabel_allows _ (fun _ => rfl) fun _ => rfl)
  | awaitLowered =>
      exact names_strideOnLock (Stride.relabel_allows _ (fun _ => rfl) fun _ => rfl)

theorem names_enter (p : Payload) (a : Access) :
    Names none (strideOnPayload (PayloadCall.enter p a)) :=
  names_strideOnPayload (Stride.relabel_allows _ (fun _ => trivial) fun _ => rfl)

theorem names_walkThrough (p : Payload) (plan : Plan) :
    Names none (strideOnPayload (PayloadCall.walkThrough p plan)) :=
  names_strideOnPayload (Stride.relabel_allows _ (fun _ => trivial) fun _ => rfl)

/-- The next stride of a call is one of a call with the same name. -/
theorem names_resume? {call : Call} (h : call.resume? o = some s) : Names call.guard? s := by
  cases call with
  | onLock call =>
      obtain ⟨l, -, rfl⟩ := Option.map_eq_some_iff.mp h
      apply names_strideOnLock
      cases call with
      | read guard? place =>
          exact Stride.relabel_allows _ (fun _ => rfl) fun _ => Ending.guardName?_ofHold guard? _
      | write guard? place =>
          exact Stride.relabel_allows _ (fun _ => rfl) fun _ => Ending.guardName?_ofHold guard? _
      | awaitEmpty => exact Stride.relabel_allows _ (fun _ => rfl) fun _ => rfl
      | awaitLowered => exact Stride.relabel_allows _ (fun _ => rfl) fun _ => rfl
  | onPayload call =>
      cases o with
      | payload p =>
          cases h
          apply names_strideOnPayload
          cases call with
          | access place => exact Stride.relabel_allows _ (fun _ => trivial) fun _ => rfl
          | walk reads writes place =>
              exact Stride.relabel_allows _ (fun _ => trivial) fun _ => rfl
      | bare l => cases h
      | vector l values => cases h

/-- However far a call is let go on, it keeps its name. -/
theorem names_goOn {t : Stride Object Call Ending} (turns : Nat) (hs : Names name? s)
    (h : goOn turns s = some t) : Names name? t := by
  induction turns generalizing s with
  | zero =>
      cases h
      exact hs
  | succ turns ih =>
      obtain ⟨o, log, progress⟩ := s
      cases progress with
      | paused call =>
          rw [goOn] at h
          dsimp only at h
          split at h
          · next u hu =>
              have hname : call.guard? = name? := hs
              have hstride : Names name? u := hname ▸ names_resume? hu
              have hlogged : Names name? { u with log := log ++ u.log } := hstride
              exact ih hlogged h
          · cases h
      | finished ending =>
          cases h
          exact hs
      | violated breach =>
          cases h
          exact hs

end Call

namespace Session

variable {s s' : Session} {key k actor pauses : Nat}

/-! ## What a call leaves behind at the end of a stride -/

@[simp] theorem withGuard_objects (s : Session) (name : String) (guard? : Option Guard) :
    (s.withGuard name guard?).objects = s.objects := by
  cases guard? <;> rfl

@[simp] theorem withGuard_stopped (s : Session) (name : String) (guard? : Option Guard) :
    (s.withGuard name guard?).stopped = s.stopped := by
  cases guard? <;> rfl

@[simp] theorem settle_objects (s : Session) (actor key pauses : Nat)
    (t : Stride Object Call Ending) :
    (s.settle actor key pauses t).1.objects = s.objects.insert key t.state := by
  rw [settle]
  cases t.progress with
  | paused call => rfl
  | violated breach => rfl
  | finished ending => cases ending <;> rfl

theorem settle_stopped (s : Session) (actor key pauses : Nat) (t : Stride Object Call Ending) :
    (s.settle actor key pauses t).1.stopped =
      match t.progress with
      | .paused call => s.stopped.insert actor ⟨key, pauses, call⟩
      | _ => s.stopped.erase actor := by
  rw [settle]
  cases t.progress with
  | paused call => rfl
  | violated breach => rfl
  | finished ending => cases ending <;> rfl

theorem settle_get?_of_ne (s : Session) {a : Nat} (ha : a ≠ actor) (key pauses : Nat)
    (t : Stride Object Call Ending) :
    (s.settle actor key pauses t).1.stopped.get? a = s.stopped.get? a := by
  rw [settle_stopped]
  split
  · exact Registry.get?_insert_of_ne _ _ ha
  · exact Registry.get?_erase_of_ne _ ha

theorem settle_get?_self (s : Session) (actor key pauses : Nat)
    (t : Stride Object Call Ending) :
    (s.settle actor key pauses t).1.stopped.get? actor =
      match t.progress with
      | .paused call => some ⟨key, pauses, call⟩
      | _ => none := by
  rw [settle_stopped]
  split
  · exact Registry.get?_insert_self _ _ _
  · exact Registry.get?_erase_self _ _

theorem settle_guards (s : Session) (actor key pauses : Nat) (t : Stride Object Call Ending) :
    (s.settle actor key pauses t).1.guards =
      match t.progress with
      | .finished (.guard name mode) => s.guards.insert name ⟨key, mode⟩
      | _ => s.guards := by
  rw [settle]
  cases t.progress with
  | paused call => rfl
  | violated breach => rfl
  | finished ending => cases ending <;> rfl

theorem settle_reply (s : Session) (actor key pauses : Nat) (t : Stride Object Call Ending) :
    (s.settle actor key pauses t).2.1 =
      match t.progress with
      | .paused _ => .paused pauses
      | .violated breach => .violated breach
      | .finished ending => .ofEnding ending := by
  rw [settle]
  cases t.progress with
  | paused call => rfl
  | violated breach => rfl
  | finished ending => cases ending <;> rfl

@[simp] theorem settle_log (s : Session) (actor key pauses : Nat)
    (t : Stride Object Call Ending) : (s.settle actor key pauses t).2.2 = t.log := by
  rw [settle]
  cases t.progress with
  | paused call => rfl
  | violated breach => rfl
  | finished ending => cases ending <;> rfl

/-! ## Steps that are begun -/

/-- A step of a stopped actor that is no resume is refused. -/
theorem take_of_stopped {c : Stopped} {step : Step} (hget : s.stopped.get? actor = some c)
    (hr : step.isResume = false) : s.take ⟨actor, k, step⟩ = s.refuse .actorBusy := by
  rw [take, hget]
  cases step with
  | resume turns => cases hr
  | _ => rfl

/-- A step on an object, of an actor that is not stopped. -/
theorem take_of_free {o : Object} {step : Step} (hfree : s.stopped.get? actor = none)
    (ho : s.objects.get? k = some o) (hs : step.isOnObject = true) :
    s.take ⟨actor, k, step⟩ = s.act actor k o step := by
  rw [take, hfree, ho]
  cases step with
  | resume turns => cases hs
  | create design => cases hs
  | _ => rfl

/-- A step on an object that is not there is refused. -/
theorem take_of_absent {step : Step} (hfree : s.stopped.get? actor = none)
    (ho : s.objects.get? k = none) (hs : step.isOnObject = true) :
    s.take ⟨actor, k, step⟩ = s.refuse .noObject := by
  rw [take, hfree, ho]
  cases step with
  | resume turns => cases hs
  | create design => cases hs
  | _ => rfl

/-- A step has given the lock of an object new words and answered, and nothing else
has happened. -/
def leaving (s : Session) (key : Nat) (o : Object) (m : Lock) (reply : Reply) :
    Session × Reply × List Record :=
  (s.withObject key (o.withLock m), reply, [])

/-- A call has left the lock of an object with new words and stands in a pause, and
nothing else has happened. -/
def halting (s : Session) (actor key pauses : Nat) (o : Object) (m : Lock) (call : LockCall) :
    Session × Reply × List Record :=
  ({ s.withObject key (o.withLock m) with
      stopped := s.stopped.insert actor ⟨key, pauses, .onLock call⟩ },
    .paused pauses, [])

/-- A step that never waits does what it does to the lock, and nothing else. -/
theorem take_instant {o : Object} {l : Lock} (what : Instant)
    (hfree : s.stopped.get? actor = none) (ho : s.objects.get? k = some o)
    (hl : o.lock? = some l) : s.take ⟨actor, k, .instant what⟩ =
      s.leaving k o (what.run l).1 (what.run l).2 := by
  rw [take_of_free hfree ho rfl, act, onLock, hl]
  rfl

/-- A step that may wait begins with the first stride of its call. -/
theorem take_waiting {o : Object} {l : Lock} (what : Waiting)
    (hfree : s.stopped.get? actor = none) (ho : s.objects.get? k = some o)
    (hl : o.lock? = some l) : s.take ⟨actor, k, .waiting what⟩ =
      s.settle actor k 1 (Call.strideOnLock o (what.start l)) := by
  rw [take_of_free hfree ho rfl, act, onLock, hl]
  rfl

theorem take_resume {c : Stopped} {turns : Nat} (hget : s.stopped.get? actor = some c) :
    s.take ⟨actor, k, .resume turns⟩ = s.resume actor turns c := by
  rw [take, hget]

/-- A resumed call comes to the end of its strides. -/
theorem take_goOn {c : Stopped} {o : Object} {turns : Nat} {went : Stride Object Call Ending}
    (number : Nat) (ho : s.objects.get? c.object = some o) (hget : s.stopped.get? actor = some c)
    (hgo : Call.goOn (max turns 1) (.pauseAt o c.call) = some went) :
    s.take ⟨actor, number, .resume turns⟩ =
      s.settle actor c.object (c.pauses + max turns 1) went := by
  rw [take_resume hget, resume, ho]
  dsimp only
  rw [hgo]

/-! ## What a turn may come to -/

/-- The actor of the turn is not stopped, and the step is no resume. -/
structure Begins (s : Session) (t : Turn) : Prop where
  free : s.stopped.get? t.actor = none
  fresh : t.step.isResume = false

/-- What a turn may come to: the session after it, the reply and the log. A
turn that is not in vain begins something, or it resumes its actor's call. -/
inductive Moves (s : Session) (t : Turn) : Session × Reply × List Record → Prop
  /-- Nothing changes. -/
  | stays (reply : Reply) (vain : reply ≠ .ok) (kept : ∀ breach, reply ≠ .violated breach) :
      Moves s t (s, reply, [])
  /-- An object is made, or its lock is operated on. -/
  | sets (o : Object) (reply : Reply) (begun : s.Begins t)
      (asked : (∃ what, t.step = .instant what) ∨ ∃ design, t.step = .create design) :
      Moves s t (s.withObject t.object o, reply, [])
  /-- An object is torn down. -/
  | removes (reply : Reply) (log : List Record) (begun : s.Begins t)
      (asked : ∃ how, t.step = .tearDown how) :
      Moves s t ({ s with objects := s.objects.erase t.object }, reply, log)
  /-- A call is begun that makes no guard. -/
  | begins (went : Stride Object Call Ending) (begun : s.Begins t)
      (asked : (∃ what, t.step = .waiting what) ∨
        ∃ p, s.objects.get? t.object = some (.payload p))
      (unguarded : ∀ name use, t.step ≠ .guard name use) (names : Call.Names none went) :
      Moves s t (s.settle t.actor t.object 1 went)
  /-- A call is begun that makes a guard. -/
  | makes (name : String) (mode : Mode) (l : Lock) (values : List Int)
      (begun : s.Begins t)
      (there : s.objects.get? t.object = some (.vector l values))
      (untaken : s.nameTaken name = false) (asked : t.step.guardMade? = some (name, mode)) :
      Moves s t (s.settle t.actor t.object 1
        (Call.strideOnLock (.vector l values) (LockCall.acquire (some name) mode l)))
  /-- A guard is had at once. -/
  | obtains (name : String) (mode : Mode) (l m : Lock) (values : List Int)
      (begun : s.Begins t)
      (there : s.objects.get? t.object = some (.vector l values))
      (untaken : s.nameTaken name = false) (asked : t.step = .tryGuard name mode)
      (granted : l.tryAcquire mode = (m, .ok ())) :
      Moves s t ((s.withObject t.object (.vector m values)).withGuard name
        (some ⟨t.object, mode⟩), .ok, [])
  /-- A guard cannot be had at once. -/
  | misses (name : String) (mode : Mode) (l m : Lock) (values : List Int) (why : Busy)
      (begun : s.Begins t)
      (there : s.objects.get? t.object = some (.vector l values))
      (asked : t.step = .tryGuard name mode)
      (refused : l.tryAcquire mode = (m, .error why)) :
      Moves s t (s.withObject t.object (.vector m values), .declined, [])
  /-- A guard is used on the vector that it is over. -/
  | uses (name : String) (g : Guard) (use : GuardUse) (l : Lock) (values : List Int)
      (r : GuardOutcome) (begun : s.Begins t)
      (alive : s.guards.get? name = some g)
      (there : s.objects.get? g.object = some (.vector l values))
      (asked : t.step = .guard name use) (run : use.run? l values g.mode = some r) :
      Moves s t ((s.withObject g.object (.vector r.lock r.values)).withGuard name
        (r.mode?.map fun mode => ⟨g.object, mode⟩), r.reply, [])
  /-- A call is resumed. -/
  | resumes (turns : Nat) (c : Stopped) (o : Object) (went : Stride Object Call Ending)
      (stopped : s.stopped.get? t.actor = some c) (there : s.objects.get? c.object = some o)
      (asked : t.step = .resume turns)
      (run : Call.goOn (max turns 1) (.pauseAt o c.call) = some went) :
      Moves s t (s.settle t.actor c.object (c.pauses + max turns 1) went)

theorem makeGuard_moves {l : Lock} {values : List Int} {name : String} {mode : Mode} {step : Step}
    (begun : s.Begins ⟨actor, k, step⟩) (there : s.objects.get? k = some (.vector l values))
    (asked : step.guardMade? = some (name, mode)) :
    Moves s ⟨actor, k, step⟩ (s.makeGuard actor k (.vector l values) l name mode) := by
  rw [makeGuard]
  split
  · exact .stays _ (by simp) (by simp)
  · next untaken =>
      exact .makes name mode l values begun there (Bool.not_eq_true _ ▸ untaken) asked

theorem tryGuard_moves {l : Lock} {values : List Int} {name : String} {mode : Mode}
    (begun : s.Begins ⟨actor, k, .tryGuard name mode⟩)
    (there : s.objects.get? k = some (.vector l values)) :
    Moves s ⟨actor, k, .tryGuard name mode⟩ (s.tryGuard k (.vector l values) l name mode) := by
  rw [tryGuard]
  split
  · exact .stays _ (by simp) (by simp)
  · next untaken =>
      split
      · next m granted =>
          exact .obtains name mode l m values begun there (Bool.not_eq_true _ ▸ untaken) rfl granted
      · next m why refused => exact .misses name mode l m values why begun there rfl refused

theorem useGuard_moves {name : String} {use : GuardUse}
    (begun : s.Begins ⟨actor, k, .guard name use⟩) :
    Moves s ⟨actor, k, .guard name use⟩ (s.useGuard name use) := by
  rw [useGuard]
  split
  · exact .stays _ (by simp) (by simp)
  · next g alive =>
      split
      · next l values there =>
          split
          · next r run => exact .uses name g use l values r begun alive there rfl run
          · exact .stays _ (by simp) (by simp)
      · exact .stays _ (by simp) (by simp)

theorem act_moves {o : Object} {step : Step} (begun : s.Begins ⟨actor, k, step⟩)
    (there : s.objects.get? k = some o) :
    Moves s ⟨actor, k, step⟩ (s.act actor k o step) := by
  cases step with
  | instant what =>
      simp only [act, onLock]
      split
      · exact .sets _ _ begun (.inl ⟨what, rfl⟩)
      · exact .stays _ (by simp) (by simp)
  | waiting what =>
      simp only [act, onLock]
      split
      · next l _ => exact .begins _ begun (.inl ⟨what, rfl⟩) (by simp) (Call.names_waiting what l)
      · exact .stays _ (by simp) (by simp)
  | tearDown how =>
      simp only [act]
      split
      · exact .stays _ (by simp) (by simp)
      · split
        · exact .removes _ _ begun ⟨how, rfl⟩
        · exact .stays _ (by simp) (by simp)
  | read name =>
      cases o with
      | bare l => exact .stays _ (by simp) (by simp)
      | vector l values => exact makeGuard_moves begun there rfl
      | payload p => exact .begins _ begun (.inr ⟨p, there⟩) (by simp) (Call.names_enter p _)
  | write name value =>
      cases o with
      | bare l => exact .stays _ (by simp) (by simp)
      | vector l values => exact makeGuard_moves begun there rfl
      | payload p => exact .begins _ begun (.inr ⟨p, there⟩) (by simp) (Call.names_enter p _)
  | tryGuard name mode =>
      cases o with
      | vector l values => exact tryGuard_moves begun there
      | bare l => exact .stays _ (by simp) (by simp)
      | payload p => exact .stays _ (by simp) (by simp)
  | guard name use =>
      cases o with
      | vector l values => exact useGuard_moves begun
      | bare l => exact .stays _ (by simp) (by simp)
      | payload p => exact .stays _ (by simp) (by simp)
  | walk request =>
      cases o with
      | payload p =>
          simp only [act]
          split
          · exact .begins _ begun (.inr ⟨p, there⟩) (by simp) (Call.names_walkThrough p _)
          · exact .stays _ (by simp) (by simp)
      | bare l => exact .stays _ (by simp) (by simp)
      | vector l values => exact .stays _ (by simp) (by simp)
  | isLocked => cases o <;> exact .stays _ (by simp) (by simp)
  | isWriteLocked => cases o <;> exact .stays _ (by simp) (by simp)
  | name => cases o <;> exact .stays _ (by simp) (by simp)
  | resume turns => exact .stays _ (by simp) (by simp)
  | create design => exact .stays _ (by simp) (by simp)
  | unknown => exact .stays _ (by simp) (by simp)

/-- Every turn comes to one of the things that a turn may come to. -/
theorem take_moves (s : Session) (t : Turn) : Moves s t (s.take t) := by
  obtain ⟨a, k, step⟩ := t
  cases hget : s.stopped.get? a with
  | some c =>
      cases step with
      | resume turns =>
          rw [take_resume hget, resume]
          split
          · exact .stays _ (by simp) (by simp)
          · next o there =>
              split
              · exact .stays _ (by simp) (by simp)
              · next went run => exact .resumes turns c o went hget there rfl run
      | _ =>
          rw [take_of_stopped hget rfl]
          exact .stays _ (by simp) (by simp)
  | none =>
      cases step with
      | resume turns =>
          rw [take, hget]
          exact .stays _ (by simp) (by simp)
      | create design =>
          rw [take, hget]
          dsimp only
          split
          · exact .stays _ (by simp) (by simp)
          · split
            · exact .sets _ _ ⟨hget, rfl⟩ (.inr ⟨design, rfl⟩)
            · exact .stays _ (by simp) (by simp)
      | _ =>
          cases ho : s.objects.get? k with
          | none =>
              rw [take_of_absent hget ho rfl]
              exact .stays _ (by simp) (by simp)
          | some o =>
              rw [take_of_free hget ho rfl]
              exact act_moves ⟨hget, rfl⟩ ho

/-- A turn leaves the calls of all other actors as they are. -/
theorem take_stopped_of_ne {t : Turn} {a : Nat} (ha : a ≠ t.actor) :
    (s.take t).1.stopped.get? a = s.stopped.get? a := by
  have hmoves := s.take_moves t
  generalize s.take t = u at hmoves ⊢
  cases hmoves with
  | begins => exact settle_get?_of_ne s ha _ _ _
  | makes => exact settle_get?_of_ne s ha _ _ _
  | resumes => exact settle_get?_of_ne s ha _ _ _
  | obtains => rw [withGuard_stopped]; rfl
  | uses => rw [withGuard_stopped]; rfl
  | _ => rfl

end Session

end ReaderWriter
