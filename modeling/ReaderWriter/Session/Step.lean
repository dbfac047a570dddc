import ReaderWriter.Session.Basic

/-!
# What a step does

A step is refused, or it runs a call up to its next pause. Refusals are
checked in a fixed order: the actor first, then the object, then what the step
needs. A call that ends leaves its actor free; one that stands in a pause
keeps it stopped.
-/

namespace ReaderWriter

/-- Sets some of the words of a lock. -/
def Lock.preset (l : Lock) (ingress egress : Option UInt32) (barrier : Option Int32)
    (flag : Option Bool) : Lock :=
  ⟨ingress.getD l.ingress, egress.getD l.egress, barrier.getD l.barrier, flag.getD l.flag⟩

/-- What a step that never waits does to a lock, and its reply. -/
def Instant.run (l : Lock) : Instant → Lock × Reply
  | .tryAcquire mode => (l.tryAcquire mode).map id .ofAttempt
  | .unlock mode => (l.unlock mode).map id .ofCheck
  | .tryUpgrade => l.tryUpgrade.map id .ofAttempt
  | .downgrade => l.downgrade.map id .ofCheck
  | .describe => (l, .texts [l.describe "RawRwLock", l.describeLines "RawRwLock"])
  | .preset ingress egress barrier flag => (l.preset ingress egress barrier flag, .ok)
  | .arrive => (l.arrive, .ok)
  | .depart => (l.depart, .ok)
  | .isEmpty => (l, .truth l.isEmpty)
  | .raise => (l.raise, .ok)
  | .lower => l.lower.map id .ofCheck
  | .claim => l.claim.map id .truth
  | .release => l.release.map id .ofCheck

/-- The first stride of a step that may wait. -/
def Waiting.start (l : Lock) : Waiting → Stride Lock LockCall Ending
  | .acquire mode => LockCall.acquire none mode l
  | .awaitEmpty => LockCall.untilEmpty l
  | .awaitLowered => LockCall.untilLowered l

/-- The reply and the log of a teardown that ends well with the given reply. -/
def TearDown.close {σ : Type} (s : Stride σ Empty Unit) (reply : Reply) : Reply × List Record :=
  match s.progress with
  | .finished () => (reply, s.log)
  | .violated breach => (.violated breach, s.log)

/-- What tearing an object down answers, if that is a way to be rid of it. -/
def TearDown.run? (o : Object) (how : TearDown) : Option (Reply × List Record) :=
  match how, o with
  | .drop, .bare l => some (close l.destroy .ok)
  | .dropUnwinding, .bare _ => some (.unwound, [])
  | .intoInner, .vector l values => some (close l.destroy (.numbers values))
  | .finish, .payload p => some (close p.finish .ok)
  | _, _ => none

/-- What a use of a guard comes to: the lock and the vector after it, the mode
the guard has from now on, if it is still alive, and the reply. -/
structure GuardOutcome where
  lock : Lock
  values : List Int
  mode? : Option Mode
  reply : Reply

/-- What a use of a guard does, if the guard allows it. A guard that only reads
cannot change the vector or be downgraded, and one that writes cannot be
upgraded. A guard whose release or downgrade breaks the contract is gone. -/
def GuardUse.run? (l : Lock) (values : List Int) : Mode → GuardUse → Option GuardOutcome
  | mode, .get => some ⟨l, values, some mode, .numbers values⟩
  | .write, .push value => some ⟨l, values ++ [value], some .write, .ok⟩
  | .write, .pop => some ⟨l, values.dropLast, some .write, .number values.getLast?⟩
  | .read, .upgrade =>
    match l.tryUpgrade with
    | (m, .ok ()) => some ⟨m, values, some .write, .ok⟩
    | (m, .error _) => some ⟨m, values, some .read, .returned⟩
  | .write, .downgrade =>
    match l.downgrade with
    | (m, .ok ()) => some ⟨m, values, some .read, .ok⟩
    | (m, .error breach) => some ⟨m, values, none, .violated breach⟩
  | mode, .release => some ⟨(l.unlock mode).1, values, none, .ofCheck (l.unlock mode).2⟩
  | _, .forget => some ⟨l, values, none, .ok⟩
  | .read, .push _ | .read, .pop | .write, .upgrade | .read, .downgrade => none

namespace Session

/-- The session with another state of an object. -/
def withObject (s : Session) (key : Nat) (o : Object) : Session :=
  { s with objects := s.objects.insert key o }

/-- The session with a guard alive under a name, or with the name free. -/
def withGuard (s : Session) (name : String) (guard? : Option Guard) : Session :=
  match guard? with
  | some g => { s with guards := s.guards.insert name g }
  | none => { s with guards := s.guards.erase name }

/-- What has happened when an actor's call on an object got to the end of a
stride, with `pauses` pauses so far if it stands in one. -/
def settle (s : Session) (actor key pauses : Nat) (t : Stride Object Call Ending) :
    Session × Reply × List Record :=
  let s := s.withObject key t.state
  match t.progress with
  | .paused call =>
    ({ s with stopped := s.stopped.insert actor ⟨key, pauses, call⟩ }, .paused pauses, t.log)
  | .violated breach => ({ s with stopped := s.stopped.erase actor }, .violated breach, t.log)
  | .finished ending =>
    let s := { s with stopped := s.stopped.erase actor }
    match ending with
    | .guard name mode => (s.withGuard name (some ⟨key, mode⟩), .ok, t.log)
    | _ => (s, .ofEnding ending, t.log)

/-- Begins a call: its first stride. -/
def launch (s : Session) (actor key : Nat) (t : Stride Object Call Ending) :
    Session × Reply × List Record :=
  s.settle actor key 1 t

/-- Nothing was begun. -/
def refuse (s : Session) (why : Refusal) : Session × Reply × List Record :=
  (s, .refused why, [])

/-- Resumes the call of a stopped actor for some turns, one at least. -/
def resume (s : Session) (actor turns : Nat) (c : Stopped) : Session × Reply × List Record :=
  match s.objects.get? c.object with
  | none => s.refuse .noObject
  | some o =>
    match Call.goOn (max turns 1) (.pauseAt o c.call) with
    | none => s.refuse .wrongKind
    | some t => s.settle actor c.object (c.pauses + max turns 1) t

/-- A step that makes a guard over a vector. -/
def makeGuard (s : Session) (actor key : Nat) (o : Object) (l : Lock) (name : String)
    (mode : Mode) : Session × Reply × List Record :=
  if s.nameTaken name then s.refuse .guardExists
  else s.launch actor key (Call.strideOnLock o (LockCall.acquire (some name) mode l))

/-- A step that makes a guard over a vector if that needs no waiting. -/
def tryGuard (s : Session) (key : Nat) (o : Object) (l : Lock) (name : String) (mode : Mode) :
    Session × Reply × List Record :=
  if s.nameTaken name then s.refuse .guardExists
  else
    match l.tryAcquire mode with
    | (m, .ok ()) =>
      ((s.withObject key (o.withLock m)).withGuard name (some ⟨key, mode⟩), .ok, [])
    | (m, .error _) => (s.withObject key (o.withLock m), .declined, [])

/-- A step that uses a guard. It works on the vector that the guard is over. -/
def useGuard (s : Session) (name : String) (use : GuardUse) : Session × Reply × List Record :=
  match s.guards.get? name with
  | none => s.refuse .noGuard
  | some g =>
    match s.objects.get? g.object with
    | some (.vector l values) =>
      match use.run? l values g.mode with
      | some r =>
        ((s.withObject g.object (.vector r.lock r.values)).withGuard name
          (r.mode?.map fun mode => ⟨g.object, mode⟩), r.reply, [])
      | none => s.refuse .wrongGuard
    | _ => s.refuse .noGuard

/-- A step on the lock inside an object, or on any of the objects that have one. -/
def onLock (s : Session) (o : Object) (f : Lock → Session × Reply × List Record) :
    Session × Reply × List Record :=
  match o.lock? with
  | some l => f l
  | none => s.refuse .unknownStep

/-- A step on an object, taken by an actor that is not stopped. -/
def act (s : Session) (actor key : Nat) (o : Object) : Step → Session × Reply × List Record
  | .instant what => s.onLock o fun l =>
    (s.withObject key (o.withLock (what.run l).1), (what.run l).2, [])
  | .waiting what => s.onLock o fun l => s.launch actor key (Call.strideOnLock o (what.start l))
  | .tearDown how =>
    if s.inUse key then s.refuse .inUse
    else
      match how.run? o with
      | some (reply, log) => ({ s with objects := s.objects.erase key }, reply, log)
      | none => s.refuse .wrongKind
  | .read name =>
    match o with
    | .vector l _ => s.makeGuard actor key o l name .read
    | .payload p => s.launch actor key (Call.strideOnPayload (PayloadCall.enter p .read))
    | .bare _ => s.refuse .unknownStep
  | .write name value =>
    match o with
    | .vector l _ => s.makeGuard actor key o l name .write
    | .payload p => s.launch actor key (Call.strideOnPayload (PayloadCall.enter p (.write value)))
    | .bare _ => s.refuse .unknownStep
  | .tryGuard name mode =>
    match o with
    | .vector l _ => s.tryGuard key o l name mode
    | _ => s.refuse .unknownStep
  | .guard name use =>
    match o with
    | .vector _ _ => s.useGuard name use
    | _ => s.refuse .unknownStep
  | .isLocked =>
    match o with
    | .vector l _ => (s, .truth l.isLocked, [])
    | _ => s.refuse .unknownStep
  | .isWriteLocked =>
    match o with
    | .vector l _ => (s, .truth l.flag, [])
    | _ => s.refuse .unknownStep
  | .name =>
    match o with
    | .payload p => (s, .text p.scheme.name, [])
    | _ => s.refuse .unknownStep
  | .walk request =>
    match o with
    | .payload p =>
      match request.draw? with
      | some plan => s.launch actor key (Call.strideOnPayload (PayloadCall.walkThrough p plan))
      | none => (s, .exceeded, [])
    | _ => s.refuse .unknownStep
  | .resume _ | .create _ | .unknown => s.refuse .unknownStep

/-- The effect of a turn, its reply and its log. -/
def take (s : Session) (t : Turn) : Session × Reply × List Record :=
  match t.step, s.stopped.get? t.actor with
  | .resume _, none => s.refuse .actorIdle
  | .resume turns, some c => s.resume t.actor turns c
  | _, some _ => s.refuse .actorBusy
  | .create design, none =>
    if s.objects.contains t.object then s.refuse .objectExists
    else
      match design.build? with
      | some o => (s.withObject t.object o, .ok, [])
      | none => (s, .exceeded, [])
  | step, none =>
    match s.objects.get? t.object with
    | none => s.refuse .noObject
    | some o => s.act t.actor t.object o step

/-- A turn: the session after it, and its answer. -/
def step (s : Session) (t : Turn) : Session × Answer :=
  let (after, reply, log) := s.take t
  (after, ⟨reply, after.objects.get? t.object, log⟩)

/-- The session after a script. -/
def after (s : Session) (script : List Turn) : Session :=
  script.foldl (fun s t => (s.step t).1) s

/-- The answers to a script, turn by turn. -/
def answers (s : Session) : List Turn → List Answer
  | [] => []
  | t :: rest => (s.step t).2 :: (s.step t).1.answers rest

@[simp] theorem after_nil (s : Session) : s.after [] = s := rfl

@[simp] theorem after_cons (s : Session) (t : Turn) (rest : List Turn) :
    s.after (t :: rest) = (s.step t).1.after rest := rfl

end Session

end ReaderWriter
