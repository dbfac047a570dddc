import ReaderWriter.Session.Object

/-!
# Calls that can stop

A call that may wait is on a lock or on a payload. Each kind has a first
stride and, for every place it can stand in, a next one; a call on the lock of
an object is the same call whatever else the object holds.

A call for the lock may be about to make a guard. The guard comes into being
when the call returns, and its name is taken as soon as the call began.
-/

namespace ReaderWriter

/-- What a call comes to when it returns. -/
inductive Ending where
  | plain
  /-- A guard with a name comes into being. -/
  | guard (name : String) (mode : Mode)
  /-- A plan has been walked through. -/
  | walked (reads writes : Nat)
deriving DecidableEq

/-- What a call for the lock comes to: a mere hold, or a guard that stands for it. -/
def Ending.ofHold (guard? : Option String) (mode : Mode) : Ending :=
  match guard? with
  | none => .plain
  | some name => .guard name mode

/-- A call on a lock that is stopped in a pause. -/
inductive LockCall where
  /-- A call for a read lock, and the guard it will make. -/
  | read (guard? : Option String) (place : ReadWait)
  /-- A call for the write lock, and the guard it will make. -/
  | write (guard? : Option String) (place : WriteWait)
  /-- A call that waits until no reader is registered. -/
  | awaitEmpty
  /-- A call that waits until the barrier is down. -/
  | awaitLowered
deriving DecidableEq

namespace LockCall

/-- The name of the guard that a call is about to make. -/
def guard? : LockCall → Option String
  | .read name? _ => name?
  | .write name? _ => name?
  | .awaitEmpty | .awaitLowered => none

/-- The first stride of a call for the lock in a mode. -/
def acquire (guard? : Option String) (mode : Mode) (l : Lock) : Stride Lock LockCall Ending :=
  match mode with
  | .read => l.read.relabel (.read guard?) fun _ => .ofHold guard? .read
  | .write => l.write.relabel (.write guard?) fun _ => .ofHold guard? .write

/-- The only stride, over and over, of a call that waits for the readers. -/
def untilEmpty (l : Lock) : Stride Lock LockCall Ending :=
  l.awaitEmpty.relabel (fun _ => .awaitEmpty) fun _ => .plain

/-- The only stride, over and over, of a call that waits for the barrier. -/
def untilLowered (l : Lock) : Stride Lock LockCall Ending :=
  l.awaitLowered.relabel (fun _ => .awaitLowered) fun _ => .plain

/-- The next stride of a call on a lock. -/
def resume (l : Lock) : LockCall → Stride Lock LockCall Ending
  | .read guard? place => (place.resume l).relabel (.read guard?) fun _ => .ofHold guard? .read
  | .write guard? place => (place.resume l).relabel (.write guard?) fun _ => .ofHold guard? .write
  | .awaitEmpty => untilEmpty l
  | .awaitLowered => untilLowered l

end LockCall

/-- A call on a payload that is stopped in a pause. -/
inductive PayloadCall where
  /-- An access. -/
  | access (place : AccessWait)
  /-- A walk through a plan, with the reads and writes it will report. -/
  | walk (reads writes : Nat) (place : WalkWait)
deriving DecidableEq

namespace PayloadCall

/-- The first stride of an access. -/
def enter (p : Payload) (a : Access) : Stride Payload PayloadCall Ending :=
  (p.access a).relabel .access fun _ => .plain

/-- The first stride of a walk through a plan. -/
def walkThrough (p : Payload) (plan : Plan) : Stride Payload PayloadCall Ending :=
  (Payload.walk 0 plan.decisions p).relabel (.walk plan.reads plan.writes)
    fun _ => .walked plan.reads plan.writes

/-- The next stride of a call on a payload. -/
def resume (p : Payload) : PayloadCall → Stride Payload PayloadCall Ending
  | .access place => (p.resume place).relabel .access fun _ => .plain
  | .walk reads writes place =>
    (p.resumeWalk place).relabel (.walk reads writes) fun _ => .walked reads writes

end PayloadCall

/-- A call on an object that is stopped in a pause. -/
inductive Call where
  | onLock (call : LockCall)
  | onPayload (call : PayloadCall)
deriving DecidableEq

namespace Call

/-- The name of the guard that a call is about to make. -/
def guard? : Call → Option String
  | .onLock call => call.guard?
  | .onPayload _ => none

/-- Sees a stride on the lock of an object as one on the object. -/
def strideOnLock (o : Object) (s : Stride Lock LockCall Ending) : Stride Object Call Ending :=
  (s.within o.withLock).relabel .onLock id

/-- Sees a stride on a payload as one on the object that it is. -/
def strideOnPayload (s : Stride Payload PayloadCall Ending) : Stride Object Call Ending :=
  (s.within .payload).relabel .onPayload id

/-- The next stride of a call, if the object is one the call can be on. -/
def resume? (o : Object) : Call → Option (Stride Object Call Ending)
  | .onLock call => o.lock?.map fun l => strideOnLock o (call.resume l)
  | .onPayload call =>
    match o with
    | .payload p => some (strideOnPayload (call.resume p))
    | _ => none

/-- Lets a call go on from a pause, and through further pauses, `turns`
strides in all unless it ends before. -/
def goOn : Nat → Stride Object Call Ending → Option (Stride Object Call Ending)
  | 0, s => some s
  | turns + 1, s =>
    match s.progress with
    | .paused call =>
      match call.resume? s.state with
      | some t => goOn turns { t with log := s.log ++ t.log }
      | none => none
    | _ => some s

end Call

end ReaderWriter
