import ReaderWriter.Lock.Basic

/-!
# Operations that never wait

The attempts take the lock at once or say why they cannot; a failed attempt
leaves the caller with exactly what it held. The releases give back what the
caller holds.

An attempt at the write lock looks at the barrier, then at the flag, then at
the readers, and the first obstacle it meets is the one it reports.
-/

namespace ReaderWriter

/-- Which side of a lock an operation is on. -/
inductive Mode where
  | read | write
deriving DecidableEq

/-- Why an attempt could not take the lock at once. -/
inductive Busy where
  /-- A starved reader asks writers to stand aside. -/
  | barred
  /-- A writer owns the lock. -/
  | written
  /-- Readers are registered. -/
  | readers
deriving DecidableEq

/-- The text that reports a busy lock. -/
def Busy.message : Busy → String
  | .barred => "lock busy: writer barrier is raised"
  | .written => "lock busy: write lock is held"
  | .readers => "lock busy: readers are active"

namespace Lock

/-- Takes a read lock unless a writer owns the flag. The reader registers
first and steps back when it finds the flag taken. -/
def tryRead (l : Lock) : Lock × Except Busy Unit :=
  if l.arrive.flag then (l.arrive.depart, .error .written) else (l.arrive, .ok ())

/-- Takes the write lock if that needs no waiting. -/
def tryWrite (l : Lock) : Lock × Except Busy Unit :=
  if l.isBarred then (l, .error .barred)
  else
    match l.claim with
    | (_, false) => (l, .error .written)
    | (m, true) => if m.isEmpty then (m, .ok ()) else (l, .error .readers)

/-- Turns the caller's read lock into the write lock if the caller is the only
reader. The flag is taken and the registration given up; if another reader is
left, both are undone. -/
def tryUpgrade (l : Lock) : Lock × Except Busy Unit :=
  if l.isBarred then (l, .error .barred)
  else
    match l.claim with
    | (_, false) => (l, .error .written)
    | (m, true) =>
      if m.depart.isEmpty then (m.depart, .ok ()) else (l.depart.arrive, .error .readers)

/-- Turns the caller's write lock into a read lock. The registration comes
before the release, so that no other writer gets in between. -/
def downgrade (l : Lock) : Lock × Except Violation Unit :=
  l.arrive.release

/-- An attempt in the given mode. -/
def tryAcquire (l : Lock) : Mode → Lock × Except Busy Unit
  | .read => l.tryRead
  | .write => l.tryWrite

/-- The release of a lock held in the given mode. -/
def unlock (l : Lock) : Mode → Lock × Except Violation Unit
  | .read => (l.depart, .ok ())
  | .write => l.release

end Lock

end ReaderWriter
