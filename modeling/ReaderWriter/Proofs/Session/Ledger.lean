import ReaderWriter.Proofs.Lock.Operation
import ReaderWriter.Proofs.Session.Frame
import ReaderWriter.Proofs.Session.Script

/-!
# Ledgers

A ledger is a session together with the holds that are outstanding on one of
its locks. The holds are read off the answers: an operation moves them when it
is answered with success, and for a call that was stopped that is the answer to
the turn that lets it return.

A script is disciplined if every turn that concerns the lock resumes a call or
asks for an operation of the lock, and if nothing is given up, upgraded or
downgraded that is not held. What a turn does elsewhere is left open.
-/

namespace ReaderWriter

namespace Stopped

/-- The call is a reader's that has returned from the first pause past its
patience. -/
def isStarved (c : Stopped) : Bool :=
  match c.call with
  | .onLock (.read _ _) => Patience.limit.toNat + 1 < c.pauses
  | _ => false

/-- The call is a reader's that stands in the first pause past its patience. -/
def isLosingPatience (c : Stopped) : Bool :=
  match c.call with
  | .onLock (.read _ _) => c.pauses = Patience.limit.toNat + 1
  | _ => false

/-- A reader whose patience is about to end is not starved yet. -/
theorem isStarved_of_isLosingPatience {c : Stopped} (h : c.isLosingPatience = true) :
    c.isStarved = false := by
  rw [isStarved]
  rw [isLosingPatience] at h
  split at h
  · rw [decide_eq_true_iff] at h
    rw [h]
    exact decide_eq_false (Nat.lt_irrefl _)
  · cases h

end Stopped

namespace Session

/-- The operation of the lock that a turn begins or goes on with. -/
def operation? (s : Session) (key : Nat) (t : Turn) : Option Operation :=
  if s.Concerns key t then
    match t.step with
    | .resume _ => (s.stopped.get? t.actor).bind fun c => Operation.ofCall? c.call
    | step => Operation.ofStep? step
  else none

theorem operation?_of_free {s : Session} {key actor : Nat} {step : Step}
    (hfree : s.stopped.get? actor = none) (hr : step.isResume = false) :
    s.operation? key ⟨actor, key, step⟩ = Operation.ofStep? step := by
  rw [operation?, if_pos (concerns_of_free hfree hr)]
  cases step with
  | resume turns => cases hr
  | _ => rfl

theorem operation?_resume {s : Session} {actor : Nat} {c : Stopped}
    (hget : s.stopped.get? actor = some c) (number turns : Nat) :
    s.operation? c.object ⟨actor, number, .resume turns⟩ = Operation.ofCall? c.call := by
  have hconcerns : s.Concerns c.object ⟨actor, number, .resume turns⟩ := ⟨c, hget, rfl⟩
  rw [operation?, if_pos hconcerns]
  dsimp only
  rw [hget]
  rfl

/-- The turn lets a reader return from the first pause past its patience. -/
def startles (s : Session) (key : Nat) (t : Turn) : Bool :=
  match t.step with
  | .resume _ => (s.stopped.get? t.actor).any fun c => c.object == key && c.isLosingPatience
  | _ => false

/-- The most calls with the property `p` there are in the course of a turn. A
reader whose patience ends is one of them at once, though it may get in before
it is stopped again. -/
def peak (s : Session) (key : Nat) (p : Stopped → Bool) (t : Turn) : Nat :=
  max (s.tally key p + (s.startles key t).toNat) ((s.step t).1.tally key p)

/-- The lock in an object is as good as new, and nobody has to do with it. -/
structure Fresh (s : Session) (key : Nat) (o : Object) : Prop where
  object : s.objects.get? key = some o
  lock : o.lock? = some .fresh
  unguarded : s.Unguarded key
  unused : ∀ actor c, s.stopped.get? actor = some c → c.object ≠ key

/-- A session that begins with an object has its lock fresh if it was made so. -/
theorem start_fresh {o : Object} (h : o.lock? = some .fresh) : (start o).Fresh 0 o where
  object := Registry.get?_insert_self _ _ _
  lock := h
  unguarded := by
    intro name g hget
    cases hget
  unused := by
    intro actor c hget
    cases hget

end Session

/-- A session, and the holds outstanding on one of its locks. -/
structure Ledger where
  session : Session
  holds : Holds

namespace Ledger

/-- The ledger after a turn, for the lock of object `key`. -/
def next (key : Nat) (b : Ledger) (t : Turn) : Ledger where
  session := (b.session.step t).1
  holds :=
    match b.session.operation? key t with
    | some op => op.after (b.session.step t).2.reply b.holds
    | none => b.holds

/-- The ledger after a script. -/
abbrev after (key : Nat) (b : Ledger) (script : List Turn) : Ledger :=
  Script.run (next key) b script

/-- The turn resumes a call on the lock or asks for an operation against what
is held, or it does not concern the lock. -/
def Permits (key : Nat) (b : Ledger) (t : Turn) : Prop :=
  b.session.Concerns key t →
    t.step.isResume = true ∨ ∃ op ∈ Operation.ofStep? t.step, op.Allowed b.holds

instance (key : Nat) (b : Ledger) (t : Turn) : Decidable (b.Permits key t) :=
  inferInstanceAs (Decidable (_ → _ ∨ _))

/-! ## Along a script -/

/-- Every turn of the script is taken where `P` holds of it. -/
abbrev EveryTurn (key : Nat) : (Ledger → Turn → Prop) → Ledger → List Turn → Prop :=
  Script.EveryTurn (next key)

/-- The ledger satisfies `I` before the script and after every turn of it. -/
abbrev Throughout (key : Nat) : (Ledger → Prop) → Ledger → List Turn → Prop :=
  Script.Throughout (next key)

/-- Every turn of the script is permitted. -/
def Disciplined (key : Nat) : Ledger → List Turn → Prop :=
  EveryTurn key (Permits key)

/-- Fewer readers are starved at any time than the barrier can count. -/
def FewStarved (key : Nat) : Ledger → List Turn → Prop :=
  EveryTurn key fun b t => b.session.peak key Stopped.isStarved t < 2 ^ 31

/-- Fewer calls are stopped at any time than the barrier can count. -/
def FewStopped (key : Nat) : Ledger → List Turn → Prop :=
  Throughout key fun b => b.session.waiting key < 2 ^ 31

/-- Fewer read holds are outstanding at any time than the counters can tell apart. -/
def FewReads (key : Nat) : Ledger → List Turn → Prop :=
  Throughout key fun b => b.holds.reads < 2 ^ 32

variable {key : Nat} {b : Ledger} {script first rest : List Turn}

instance : Decidable (Disciplined key b script) := Script.EveryTurn.decidable b script

instance : Decidable (FewStarved key b script) := Script.EveryTurn.decidable b script

instance : Decidable (FewStopped key b script) := Script.Throughout.decidable b script

instance : Decidable (FewReads key b script) := Script.Throughout.decidable b script

/-- The ledger follows its session. -/
theorem session_after : (b.after key script).session = b.session.after script := by
  induction script generalizing b with
  | nil => rfl
  | cons t rest ih => exact ih

end Ledger

end ReaderWriter
