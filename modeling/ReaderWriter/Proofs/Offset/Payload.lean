import ReaderWriter.Payload.Basic
import ReaderWriter.Proofs.Offset.Lock

/-!
# A payload with the counters of its lock moved on

An access looks at the store and calls the lock, and never sees a counter. So what
the counters' being moved on does not change of the lock's operations, it does not
change of accesses and of walks through them.
-/

namespace ReaderWriter

namespace Cell

/-- The cell with the counters of its lock moved on. -/
def ahead (k : UInt32) (c : Cell) : Cell :=
  c.withLock (c.lock.ahead k)

variable (k : UInt32) (c : Cell)

/-- A stride on the lock that is moved on is one on the cell that is. -/
theorem ahead_within {π α : Type} (s : Stride Lock π α) :
    (s.within (Lock.ahead k)).within (c.ahead k).withLock =
      (s.within c.withLock).within (ahead k) := rfl

@[simp] theorem ahead_commit (a : Access) :
    (c.ahead k).commit a = (c.commit a).within (ahead k) := by
  have hrelease : (c.ahead k).lock.release = c.lock.release.map (Lock.ahead k) id :=
    c.lock.ahead_release k
  simp only [commit, hrelease, Stride.ofCheck_within]
  rfl

@[simp] theorem ahead_look : (c.ahead k).look = c.look.within (ahead k) := by
  have hstore : (c.ahead k).store = c.store := rfl
  have hlock : (c.ahead k).lock = c.lock.ahead k := rfl
  simp only [look, hstore, hlock, Lock.ahead_depart, Lock.ahead_tryUpgrade]
  split
  · rfl
  · obtain ⟨m, answer⟩ := c.lock.tryUpgrade
    cases answer with
    | ok => exact (c.withLock m).ahead_commit k .read
    | error why =>
        simp only [Prod.map, id, Lock.ahead_depart, Lock.ahead_write, ahead_within]
        exact Stride.andThen_within (ahead k) (fun _ d => d.ahead_commit k .read) _

@[simp] theorem ahead_access (a : Access) :
    (c.ahead k).access a = (c.access a).within (ahead k) := by
  have hlock : (c.ahead k).lock = c.lock.ahead k := rfl
  cases a with
  | write value =>
      simp only [access, hlock, Lock.ahead_write, ahead_within]
      exact Stride.andThen_within (ahead k) (fun _ d => d.ahead_commit k (.write value)) _
  | read =>
      simp only [access, hlock, Lock.ahead_read, ahead_within]
      exact Stride.andThen_within (ahead k) (fun _ d => d.ahead_look k) _

@[simp] theorem ahead_resume (place : AccessWait) :
    (c.ahead k).resume place = (c.resume place).within (ahead k) := by
  have hlock : (c.ahead k).lock = c.lock.ahead k := rfl
  cases place with
  | putting value place =>
      simp only [resume, hlock, WriteWait.resume_ahead, ahead_within]
      exact Stride.andThen_within (ahead k) (fun _ d => d.ahead_commit k (.write value)) _
  | looking place =>
      simp only [resume, hlock, ReadWait.resume_ahead, ahead_within]
      exact Stride.andThen_within (ahead k) (fun _ d => d.ahead_look k) _
  | taking place =>
      simp only [resume, hlock, WriteWait.resume_ahead, ahead_within]
      exact Stride.andThen_within (ahead k) (fun _ d => d.ahead_commit k .read) _

end Cell

namespace Payload

/-- The payload with the counters of its lock moved on, if that is the lock of this
library. -/
def ahead (k : UInt32) (p : Payload) : Payload :=
  match p.scheme with
  | .writerFirst lock => { p with scheme := .writerFirst (lock.ahead k) }
  | _ => p

variable (k : UInt32) (p : Payload)

@[simp] theorem ahead_zero : p.ahead 0 = p := by
  obtain ⟨scheme, store⟩ := p
  cases scheme with
  | writerFirst lock => simp [ahead]
  | _ => rfl

@[simp] theorem ahead_store : (p.ahead k).store = p.store := by
  obtain ⟨scheme, store⟩ := p
  cases scheme <;> rfl

@[simp] theorem ahead_name : (p.ahead k).scheme.name = p.scheme.name := by
  obtain ⟨scheme, store⟩ := p
  cases scheme <;> rfl

@[simp] theorem ahead_lock? : (p.ahead k).lock? = p.lock?.map (Lock.ahead k) := by
  obtain ⟨scheme, store⟩ := p
  cases scheme <;> rfl

@[simp] theorem ahead_access (a : Access) :
    (p.ahead k).access a = (p.access a).within (ahead k) := by
  obtain ⟨scheme, store⟩ := p
  cases scheme with
  | writerFirst lock =>
      exact congrArg (Stride.within · ofCell) (Cell.ahead_access k ⟨lock, store⟩ a)
  | _ => rfl

@[simp] theorem ahead_resume (place : AccessWait) :
    (p.ahead k).resume place = (p.resume place).within (ahead k) := by
  obtain ⟨scheme, store⟩ := p
  cases scheme with
  | writerFirst lock =>
      exact congrArg (Stride.within · ofCell) (Cell.ahead_resume k ⟨lock, store⟩ place)
  | _ => rfl

theorem ahead_walk (n : Nat) (decisions : List Decision) :
    walk n decisions (p.ahead k) = (walk n decisions p).within (ahead k) := by
  induction decisions generalizing n p with
  | nil => rfl
  | cons d rest ih =>
      rw [walk, walk, ahead_access]
      exact Stride.andThen_within (ahead k) (fun _ q => ih q (n + 1)) _

theorem ahead_resumeWalk (w : WalkWait) :
    (p.ahead k).resumeWalk w = (p.resumeWalk w).within (ahead k) := by
  rw [resumeWalk, resumeWalk, ahead_resume]
  exact Stride.andThen_within (ahead k) (fun _ q => q.ahead_walk k w.next w.rest) _

theorem ahead_finish : (p.ahead k).finish = p.finish.within (ahead k) := by
  obtain ⟨scheme, store⟩ := p
  cases scheme with
  | writerFirst lock =>
      let p : Payload := ⟨.writerFirst lock, store⟩
      change (((lock.ahead k).destroy.within fun _ => p.ahead k).andThen id fun _ q =>
        ⟨q, [closingRecord q.store], .finished ()⟩) = _
      rw [Lock.ahead_destroy]
      refine Stride.andThen_within (ahead k) ?_ (lock.destroy.within fun _ => p)
      intro _ q
      rw [ahead_store]
      rfl
  | _ => rfl

end Payload

end ReaderWriter
