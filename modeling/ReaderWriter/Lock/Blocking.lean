import ReaderWriter.Lock.Attempt
import ReaderWriter.Patience
import ReaderWriter.Stride

/-!
# Operations that wait

A reader that finds a writer steps back and spins until the flag is clear. It
counts its spins; past its patience it raises the barrier, once, and lowers it
when it is in. A writer waits three times: until the barrier is down, until
the flag is its own, and until the readers that were there before have left.

Each wait is a place in which a call can stand paused, and resuming a place
runs the call's next stride on the lock as it is then. A writer never goes
back to an earlier wait.
-/

namespace ReaderWriter

/-- Where a reader stands that waits for the flag to clear. -/
structure ReadWait where
  /-- Turns of the loop before the present pause, as far as they are counted. -/
  spins : UInt32
  /-- The reader has raised the barrier. -/
  raised : Bool
deriving DecidableEq

/-- Where a writer stands. -/
inductive WriteWait where
  /-- Starved readers hold it back. -/
  | barrier
  /-- Another writer owns the flag. -/
  | flag
  /-- It owns the flag, and readers have yet to leave. -/
  | drain
deriving DecidableEq

/-- One more spin; the count stays at its greatest value once it is there. -/
def ReadWait.countSpin (spins : UInt32) : UInt32 :=
  if spins = 4294967295 then spins else spins + 1

namespace Lock

variable {π : Type}

/-- Waits for a read lock. -/
def read (l : Lock) : Stride Lock ReadWait Unit :=
  if l.arrive.flag then .pauseAt l.arrive.depart ⟨0, false⟩ else .done l.arrive ()

/-- A reader that comes back from its wait registers and takes itself off the
barrier if it is on it. -/
def readAgain (l : Lock) (raised : Bool) : Stride Lock π Unit :=
  if raised then
    (Stride.ofCheck l.arrive.lower).andThen id fun _ m => ⟨m, [.barrierLowered], .finished ()⟩
  else .done l.arrive ()

/-- The last wait of a writer. -/
def writeDrain (l : Lock) : Stride Lock WriteWait Unit :=
  if l.isEmpty then .done l () else .pauseAt l .drain

/-- The writer's wait for the flag, and what follows. -/
def writeFlag (l : Lock) : Stride Lock WriteWait Unit :=
  match l.claim with
  | (m, true) => m.writeDrain
  | (_, false) => .pauseAt l .flag

/-- Waits for the write lock. -/
def write (l : Lock) : Stride Lock WriteWait Unit :=
  if l.isBarred then .pauseAt l .barrier else l.writeFlag

/-- Waits until no reader is registered. -/
def awaitEmpty (l : Lock) : Stride Lock Unit Unit :=
  if l.isEmpty then .done l () else .pauseAt l ()

/-- Waits until no starved reader holds writers back. -/
def awaitLowered (l : Lock) : Stride Lock Unit Unit :=
  if l.isBarred then .pauseAt l () else .done l ()

/-- Tears the lock down; that nobody holds it is checked first. -/
def destroy (l : Lock) : Stride Lock π Unit :=
  (Stride.ofCheck (l, l.checkReleased)).andThen id
    fun _ m => ⟨m, [.lockDestroyed], .finished ()⟩

end Lock

namespace ReadWait

/-- The reader returns from a pause with its patience gone and the barrier not
raised yet. -/
def isStarving (w : ReadWait) : Bool :=
  Patience.exhausted w.spins && !w.raised

/-- Where the reader stands if it has to wait once more. -/
def next (w : ReadWait) : ReadWait :=
  ⟨countSpin w.spins, w.raised || w.isStarving⟩

/-- The reader's stride from a pause. Patience is looked at before the spin is
counted and before the flag is looked at again. -/
def resume (w : ReadWait) (l : Lock) : Stride Lock ReadWait Unit :=
  let m := if w.isStarving then l.raise else l
  let notice := if w.isStarving then [Record.outOfPatience w.spins] else []
  let s := if m.flag then .pauseAt m w.next else m.readAgain w.next.raised
  { s with log := notice ++ s.log }

end ReadWait

/-- The writer's stride from a pause: the wait it stands in, and those after. -/
def WriteWait.resume : WriteWait → Lock → Stride Lock WriteWait Unit
  | .barrier => Lock.write
  | .flag => Lock.writeFlag
  | .drain => Lock.writeDrain

end ReaderWriter
