import ReaderWriter.Payload.Design

/-!
# Objects of a script

A script works on bare locks, on vectors behind a lock, and on payloads. What
they share is the lock inside, if they have one of ours: every operation on a
lock applies to any of them and touches nothing else of the object.
-/

namespace ReaderWriter

namespace Payload

/-- The payload with another state of its lock. -/
def withLock (p : Payload) (lock : Lock) : Payload :=
  match p.scheme with
  | .writerFirst _ => { p with scheme := .writerFirst lock }
  | _ => p

@[simp] theorem lock?_withLock (p : Payload) (lock : Lock) :
    (p.withLock lock).lock? = p.lock?.map fun _ => lock := by
  obtain ⟨scheme, store⟩ := p
  cases scheme <;> rfl

@[simp] theorem store_withLock (p : Payload) (lock : Lock) :
    (p.withLock lock).store = p.store := by
  obtain ⟨scheme, store⟩ := p
  cases scheme <;> rfl

end Payload

/-- What a script can work on. -/
inductive Object where
  /-- A lock that guards nothing by itself. -/
  | bare (lock : Lock)
  /-- A vector of numbers behind a lock, reached through guards. -/
  | vector (lock : Lock) (values : List Int)
  /-- A payload of the benchmark. -/
  | payload (payload : Payload)
deriving DecidableEq

namespace Object

/-- The lock inside an object, if it has one of ours. -/
def lock? : Object → Option Lock
  | .bare lock => some lock
  | .vector lock _ => some lock
  | .payload p => p.lock?

/-- The object with another state of its lock. -/
def withLock (o : Object) (lock : Lock) : Object :=
  match o with
  | .bare _ => .bare lock
  | .vector _ values => .vector lock values
  | .payload p => .payload (p.withLock lock)

@[simp] theorem lock?_withLock (o : Object) (lock : Lock) :
    (o.withLock lock).lock? = o.lock?.map fun _ => lock := by
  cases o with
  | bare _ => rfl
  | vector _ _ => rfl
  | payload p => exact p.lock?_withLock lock

/-- What an object is made from. -/
inductive Design where
  | bare
  | vector (values : List Int)
  | payload (design : Payload.Design)
deriving DecidableEq

/-- Makes the object with its lock fresh, if it can be held. -/
def Design.build? : Design → Option Object
  | .bare => some (.bare .fresh)
  | .vector values => some (.vector .fresh values)
  | .payload design => design.build?.map .payload

end Object

end ReaderWriter
