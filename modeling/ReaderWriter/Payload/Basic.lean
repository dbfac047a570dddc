import ReaderWriter.Lock.Blocking
import ReaderWriter.Payload.Store
import ReaderWriter.Plan

/-!
# Payloads

A payload is a store together with the scheme that guards it. Under a mutex, a
standard reader-writer lock or no lock at all an access is one atomic step.
Under the lock of this library an access is a call that may wait: a write
takes the write lock; a read takes a read lock, and in a queue upgrades it to
take an element, or falls back to the write lock when the upgrade is refused.

By the time a fallen-back read has the write lock the queue may have changed
hands, so it takes what is there then, or nothing.
-/

namespace ReaderWriter

/-- A store behind a lock. -/
structure Cell where
  lock : Lock
  store : Store
deriving DecidableEq

/-- Where an access to a cell stands. -/
inductive AccessWait where
  /-- A write waits for the write lock. -/
  | putting (value : UInt64) (place : WriteWait)
  /-- A read waits for its read lock. -/
  | looking (place : ReadWait)
  /-- A read whose upgrade was refused waits for the write lock. -/
  | taking (place : WriteWait)
deriving DecidableEq

namespace Cell

/-- The same store under another state of the lock. -/
def withLock (c : Cell) (lock : Lock) : Cell := { c with lock }

/-- The end of an access under the write lock: the effect, then the release. -/
def commit (c : Cell) (a : Access) : Stride Cell AccessWait Unit :=
  let changed : Cell := { c with store := c.store.apply a }
  (Stride.ofCheck changed.lock.release).within changed.withLock

/-- A read that has its read lock. -/
def look (c : Cell) : Stride Cell AccessWait Unit :=
  if c.store.readsInPlace then .done (c.withLock c.lock.depart) ()
  else
    match c.lock.tryUpgrade with
    | (lock, .ok ()) => (c.withLock lock).commit .read
    | (lock, .error _) =>
      (lock.depart.write.within c.withLock).andThen .taking fun _ d => d.commit .read

/-- The first stride of an access. -/
def access (c : Cell) : Access → Stride Cell AccessWait Unit
  | .write value =>
    (c.lock.write.within c.withLock).andThen (.putting value) fun _ d => d.commit (.write value)
  | .read => (c.lock.read.within c.withLock).andThen .looking fun _ d => d.look

/-- The next stride of an access that stands in a pause. -/
def resume (c : Cell) : AccessWait → Stride Cell AccessWait Unit
  | .putting value place =>
    ((place.resume c.lock).within c.withLock).andThen (.putting value)
      fun _ d => d.commit (.write value)
  | .looking place => ((place.resume c.lock).within c.withLock).andThen .looking fun _ d => d.look
  | .taking place =>
    ((place.resume c.lock).within c.withLock).andThen .taking fun _ d => d.commit .read

end Cell

/-- How a payload is guarded. -/
inductive Scheme where
  | mutex
  | rwlock
  /-- The lock of this library. -/
  | writerFirst (lock : Lock)
  | lockFree
deriving DecidableEq

/-- The name a contender goes by in reports. -/
def Scheme.name : Scheme → String
  | .mutex => "mutex"
  | .rwlock => "rwlock"
  | .writerFirst _ => "c-rw-wp"
  | .lockFree => "lfqueue"

/-- A store and the scheme that guards it. -/
structure Payload where
  scheme : Scheme
  store : Store
deriving DecidableEq

/-- Where a worker stands that walks through decisions. -/
structure WalkWait where
  /-- Where the access in hand stands. -/
  place : AccessWait
  /-- The number of the decision after it. -/
  next : Nat
  /-- The decisions after it. -/
  rest : List Decision
deriving DecidableEq

namespace Payload

/-- An empty list under a scheme. -/
def list (scheme : Scheme) : Payload := ⟨scheme, .list []⟩

/-- A queue of the numbers below `length` under a scheme. -/
def queue (scheme : Scheme) (length : Nat) : Payload := ⟨scheme, .prefilled length⟩

/-- The payload that a cell is. -/
def ofCell (c : Cell) : Payload := ⟨.writerFirst c.lock, c.store⟩

/-- The lock of this library, if the payload is guarded by it. -/
def lock? (p : Payload) : Option Lock :=
  match p.scheme with
  | .writerFirst lock => some lock
  | _ => none

/-- The first stride of an access. -/
def access (p : Payload) (a : Access) : Stride Payload AccessWait Unit :=
  match p.scheme with
  | .writerFirst lock => (Cell.access ⟨lock, p.store⟩ a).within ofCell
  | _ => .done { p with store := p.store.apply a } ()

/-- The next stride of an access. Only the lock of this library makes an access
wait. -/
def resume (p : Payload) (place : AccessWait) : Stride Payload AccessWait Unit :=
  match p.scheme with
  | .writerFirst lock => (Cell.resume ⟨lock, p.store⟩ place).within ofCell
  | _ => .done p ()

/-- The access that decision number `n` of a plan stands for. -/
def accessOf (n : Nat) : Decision → Access
  | .write => .write (UInt64.ofNat n)
  | .read => .read

/-- Walks through decisions, the first of them being number `n`. -/
def walk (n : Nat) : List Decision → Payload → Stride Payload WalkWait Unit
  | [], p => .done p ()
  | d :: rest, p =>
    (p.access (accessOf n d)).andThen (fun place => ⟨place, n + 1, rest⟩)
      fun _ q => walk (n + 1) rest q

/-- The next stride of a walk: the access in hand, then the decisions after it. -/
def resumeWalk (p : Payload) (w : WalkWait) : Stride Payload WalkWait Unit :=
  (p.resume w.place).andThen (fun place => { w with place }) fun _ q => walk w.next w.rest q

/-- What is reported of a store that its lock has let go. -/
def closingRecord : Store → Record
  | .list nodes => .listFinished nodes.length
  | .queue elements popped => .queueFinished elements.toList.length popped

/-- Tears the payload down. The lock of this library checks that nobody holds
it; the other schemes have nothing to check and nothing to say. -/
def finish (p : Payload) : Stride Payload Empty Unit :=
  match p.scheme with
  | .writerFirst lock =>
    (lock.destroy.within fun _ => p).andThen id
      fun _ q => ⟨q, [closingRecord q.store], .finished ()⟩
  | _ => .done p ()

end Payload

end ReaderWriter
