import ReaderWriter.Violation

/-!
# The words of a lock

A lock is four words. Two counters indicate the readers: each reader adds one
to `ingress` when it arrives and one to `egress` when it departs, so readers
are registered exactly as far as the counters differ. The counters wrap, and
only their difference is ever looked at. A flag is held by the one writer, and
a signed count says how many starved readers ask new writers to stand aside.

The operations of this module each touch one word, as one atomic instruction
does. The lock's own operations are put together from them.
-/

namespace ReaderWriter

/-- A reader-writer lock, as its four words. -/
@[ext] structure Lock where
  /-- Readers that ever arrived. -/
  ingress : UInt32
  /-- Readers that ever departed. -/
  egress : UInt32
  /-- Starved readers that hold new writers back. -/
  barrier : Int32
  /-- A writer owns the lock, though it may still wait for readers to leave. -/
  flag : Bool
deriving DecidableEq

namespace Lock

/-- A lock that nobody has used yet. -/
def fresh : Lock := ⟨0, 0, 0, false⟩

/-- Readers registered at the moment. -/
def registered (l : Lock) : UInt32 :=
  l.ingress - l.egress

/-- No reader is registered. -/
def isEmpty (l : Lock) : Bool :=
  l.egress == l.ingress

/-- Some starved reader holds new writers back. -/
def isBarred (l : Lock) : Bool :=
  0 < l.barrier

/-- No reader is registered, no writer owns the flag and nobody is starved. -/
def isIdle (l : Lock) : Bool :=
  l.registered == 0 && !l.flag && l.barrier == 0

/-- Somebody holds the lock in either mode. -/
def isLocked (l : Lock) : Bool :=
  l.flag || 0 < l.registered

/-- Registers a reader. -/
def arrive (l : Lock) : Lock :=
  { l with ingress := l.ingress + 1 }

/-- Takes back the registration of a reader. -/
def depart (l : Lock) : Lock :=
  { l with egress := l.egress + 1 }

/-- Adds a starved reader to the barrier. -/
def raise (l : Lock) : Lock :=
  { l with barrier := l.barrier + 1 }

/-- Takes a starved reader off the barrier. The count goes down in any case;
that there was nobody to take off shows only afterwards. -/
def lower (l : Lock) : Lock × Except Violation Unit :=
  ({ l with barrier := l.barrier - 1 },
    if l.isBarred then .ok () else .error .barrierBelowZero)

/-- Takes the flag and says whether it was free. -/
def claim (l : Lock) : Lock × Bool :=
  ({ l with flag := true }, !l.flag)

/-- Gives the flag back; a flag that is free stays as it is. -/
def release (l : Lock) : Lock × Except Violation Unit :=
  if l.flag then ({ l with flag := false }, .ok ()) else (l, .error .notWriteLocked)

/-- What a lock must satisfy to be torn down. The flag is looked at first, and
the barrier not at all. -/
def checkReleased (l : Lock) : Except Violation Unit :=
  if l.flag then .error .destroyedWriteLocked
  else if l.isEmpty then .ok () else .error .destroyedWithReaders

@[simp] theorem isEmpty_iff (l : Lock) : l.isEmpty = true ↔ l.egress = l.ingress := by
  simp [isEmpty]

@[simp] theorem isBarred_iff (l : Lock) : l.isBarred = true ↔ 0 < l.barrier := by
  simp [isBarred]

@[simp] theorem arrive_egress (l : Lock) : l.arrive.egress = l.egress := rfl
@[simp] theorem arrive_barrier (l : Lock) : l.arrive.barrier = l.barrier := rfl
@[simp] theorem arrive_flag (l : Lock) : l.arrive.flag = l.flag := rfl
@[simp] theorem depart_ingress (l : Lock) : l.depart.ingress = l.ingress := rfl
@[simp] theorem depart_barrier (l : Lock) : l.depart.barrier = l.barrier := rfl
@[simp] theorem depart_flag (l : Lock) : l.depart.flag = l.flag := rfl
@[simp] theorem raise_ingress (l : Lock) : l.raise.ingress = l.ingress := rfl
@[simp] theorem raise_egress (l : Lock) : l.raise.egress = l.egress := rfl
@[simp] theorem raise_flag (l : Lock) : l.raise.flag = l.flag := rfl
@[simp] theorem lower_flag (l : Lock) : l.lower.1.flag = l.flag := rfl

/-- A registration that is taken back leaves the number of readers as it was. -/
@[simp] theorem registered_arrive_depart (l : Lock) :
    l.arrive.depart.registered = l.registered := by
  apply UInt32.toBitVec_inj.mp
  simp only [registered, arrive, depart, UInt32.toBitVec_sub, UInt32.toBitVec_add]
  generalize l.ingress.toBitVec = i
  generalize l.egress.toBitVec = e
  bv_omega

/-- The lock is empty exactly when no reader is registered. -/
theorem isEmpty_iff_registered (l : Lock) : l.isEmpty = true ↔ l.registered = 0 := by
  rw [isEmpty_iff]
  constructor
  · intro h
    simp [registered, h]
  · intro h
    have hb := congrArg UInt32.toBitVec h
    simp only [registered, UInt32.toBitVec_sub] at hb
    apply UInt32.toBitVec_inj.mp
    generalize l.ingress.toBitVec = i at *
    generalize l.egress.toBitVec = e at *
    have hz : UInt32.toBitVec 0 = 0#32 := rfl
    rw [hz] at hb
    bv_omega

end Lock

end ReaderWriter
