import ReaderWriter.Lock.Text
import ReaderWriter.Registry
import ReaderWriter.Session.Call

/-!
# Sessions, their steps and replies

A session is a script over numbered objects. Actors take turns at steps; an
actor whose call ran into a pause is stopped there until the script resumes
it, and everybody else goes on meanwhile. So the script alone fixes the
interleaving.

This module says what a session consists of and what its steps and replies
are; what a step does is the matter of `ReaderWriter.Session.Step`.
-/

namespace ReaderWriter

/-- A guard over the vector of an object; it stands for a hold on its lock. -/
structure Guard where
  object : Nat
  mode : Mode
deriving DecidableEq

/-- A call that is stopped, the object it works on, and the pauses it entered
since it began. -/
structure Stopped where
  object : Nat
  pauses : Nat
  call : Call
deriving DecidableEq

/-- Steps on a lock that never wait. -/
inductive Instant where
  | tryAcquire (mode : Mode)
  | unlock (mode : Mode)
  | tryUpgrade
  | downgrade
  /-- Prints the lock, on one line and on several. -/
  | describe
  /-- Sets some of the words and leaves the others. -/
  | preset (ingress egress : Option UInt32) (barrier : Option Int32) (flag : Option Bool)
  | arrive
  | depart
  | isEmpty
  | raise
  | lower
  | claim
  | release
deriving DecidableEq

/-- Steps on a lock that may wait. -/
inductive Waiting where
  | acquire (mode : Mode)
  | awaitEmpty
  | awaitLowered
deriving DecidableEq

/-- The ways to be rid of an object. -/
inductive TearDown where
  /-- A bare lock is dropped, with its check. -/
  | drop
  /-- A bare lock is dropped while its thread unwinds; nothing is checked. -/
  | dropUnwinding
  /-- A vector is taken out of its lock. -/
  | intoInner
  /-- A payload is finished with. -/
  | finish
deriving DecidableEq

/-- What can be done with a guard. -/
inductive GuardUse where
  | get
  | push (value : Int)
  | pop
  | upgrade
  | downgrade
  | release
  /-- The guard is lost and its hold stays. -/
  | forget
deriving DecidableEq

/-- One step of a script. -/
inductive Step where
  /-- Lets a stopped call out of its pause and through `turns - 1` more. -/
  | resume (turns : Nat)
  | create (design : Object.Design)
  | tearDown (how : TearDown)
  | instant (what : Instant)
  | waiting (what : Waiting)
  /-- Reads an object: a vector under a new guard, a payload once. -/
  | read (guard : String)
  /-- Writes an object: a vector under a new guard, a payload once. -/
  | write (guard : String) (value : UInt64)
  /-- Makes a guard if that needs no waiting. -/
  | tryGuard (name : String) (mode : Mode)
  /-- Does something with a guard. -/
  | guard (name : String) (use : GuardUse)
  | isLocked
  | isWriteLocked
  /-- The name of a payload in reports. -/
  | name
  /-- Walks a payload through a plan that is drawn for it. -/
  | walk (request : Plan.Request)
  /-- A step that no object offers. -/
  | unknown
deriving DecidableEq

/-- A step, the actor who takes it, and the object it is about. -/
structure Turn where
  actor : Nat
  object : Nat
  step : Step
deriving DecidableEq

/-- Why a step was not even begun. -/
inductive Refusal where
  | actorIdle
  | actorBusy
  | objectExists
  | noObject
  | inUse
  | wrongKind
  | guardExists
  | noGuard
  | unknownStep
  | wrongGuard
deriving DecidableEq

/-- What a step answers. -/
inductive Reply where
  | refused (why : Refusal)
  /-- The call stands in a pause, the given number since it began. -/
  | paused (pauses : Nat)
  | violated (breach : Violation)
  /-- What was to be made does not fit into memory. -/
  | exceeded
  /-- The thread went on unwinding. -/
  | unwound
  | ok
  | busy (why : Busy)
  | truth (value : Bool)
  | text (value : String)
  | texts (values : List String)
  | numbers (values : List Int)
  | number (value : Option Int)
  /-- The reads and writes of a plan that was walked through. -/
  | tally (reads writes : Nat)
  /-- A guard could not be had at once. -/
  | declined
  /-- A guard could not be upgraded and came back. -/
  | returned
deriving DecidableEq

/-- The reply of an attempt. -/
def Reply.ofAttempt : Except Busy Unit → Reply
  | .ok () => .ok
  | .error why => .busy why

/-- The reply of an operation that may find its contract broken. -/
def Reply.ofCheck : Except Violation Unit → Reply
  | .ok () => .ok
  | .error breach => .violated breach

@[simp] theorem Reply.ofAttempt_eq_ok_iff {outcome : Except Busy Unit} :
    ofAttempt outcome = .ok ↔ outcome = .ok () := by
  rcases outcome with why | _ <;> simp [ofAttempt]

@[simp] theorem Reply.ofAttempt_eq_busy_iff {outcome : Except Busy Unit} {why : Busy} :
    ofAttempt outcome = .busy why ↔ outcome = .error why := by
  rcases outcome with why' | _ <;> simp [ofAttempt]

@[simp] theorem Reply.ofAttempt_ne_violated (outcome : Except Busy Unit) (breach : Violation) :
    ofAttempt outcome ≠ .violated breach := by
  rcases outcome with why | _ <;> simp [ofAttempt]

@[simp] theorem Reply.ofCheck_eq_ok_iff {outcome : Except Violation Unit} :
    ofCheck outcome = .ok ↔ outcome = .ok () := by
  rcases outcome with breach | _ <;> simp [ofCheck]

@[simp] theorem Reply.ofCheck_eq_violated_iff {outcome : Except Violation Unit}
    {breach : Violation} : ofCheck outcome = .violated breach ↔ outcome = .error breach := by
  rcases outcome with breach' | _ <;> simp [ofCheck]

@[simp] theorem Reply.ofCheck_ne_busy (outcome : Except Violation Unit) (why : Busy) :
    ofCheck outcome ≠ .busy why := by
  rcases outcome with breach | _ <;> simp [ofCheck]

/-- The reply of a call that returned. -/
def Reply.ofEnding : Ending → Reply
  | .plain | .guard _ _ => .ok
  | .walked reads writes => .tally reads writes

/-- The objects of a script, the stopped calls by actor, and the guards that
are alive by name. -/
structure Session where
  objects : Registry Nat Object
  stopped : Registry Nat Stopped
  guards : Registry String Guard

/-- What a turn answers: the reply, the object it was about as it is now, and
what was logged. -/
structure Answer where
  reply : Reply
  object : Option Object
  log : List Record
deriving DecidableEq

namespace Session

/-- The session that holds one object under number 0. -/
def start (o : Object) : Session :=
  ⟨Registry.empty.insert 0 o, .empty, .empty⟩

/-- Somebody still needs the object: a stopped call or a guard. -/
def inUse (s : Session) (key : Nat) : Bool :=
  s.stopped.any (fun _ c => c.object == key) || s.guards.any fun _ g => g.object == key

/-- The name belongs to a guard, or to one that a stopped call will make. -/
def nameTaken (s : Session) (name : String) : Bool :=
  s.guards.contains name || s.stopped.any fun _ c => c.call.guard? == some name

end Session

end ReaderWriter
