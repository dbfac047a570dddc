import ReaderWriter.Proofs.Lock.Balance
import ReaderWriter.Session.Step

/-!
# Operations and holds

A lock offers two acquisitions that wait, two attempts, two releases, the
upgrade and the downgrade. An operation that succeeds moves holds: holds are
what the callers have been granted and have not given back, counted apart from
the words of the lock.

A release, an upgrade or a downgrade is allowed only against a hold of the
right kind. Allowed operations break no contract, keep the words balanced
against the holds, and never let a writer in beside anybody else.
-/

namespace ReaderWriter

/-- The holds on a lock that are outstanding. -/
@[ext] structure Holds where
  reads : Nat
  writes : Nat
deriving DecidableEq

namespace Holds

/-- Nobody holds the lock. -/
def none : Holds := ⟨0, 0⟩

/-- The holds of one mode. -/
def count (h : Holds) : Mode → Nat
  | .read => h.reads
  | .write => h.writes

/-- One more hold. -/
def gain (h : Holds) : Mode → Holds
  | .read => { h with reads := h.reads + 1 }
  | .write => { h with writes := h.writes + 1 }

/-- One hold less. -/
def lose (h : Holds) : Mode → Holds
  | .read => { h with reads := h.reads - 1 }
  | .write => { h with writes := h.writes - 1 }

/-- At most one writer, and no readers beside it. -/
def Exclusive (h : Holds) : Prop :=
  h.writes ≤ 1 ∧ (h.writes = 1 → h.reads = 0)

theorem none_exclusive : none.Exclusive :=
  ⟨Nat.zero_le 1, fun h => absurd h Nat.zero_ne_one⟩

end Holds

/-- An operation that a lock offers to its callers. -/
inductive Operation where
  | acquire (mode : Mode)
  | tryAcquire (mode : Mode)
  | unlock (mode : Mode)
  | tryUpgrade
  | downgrade
deriving DecidableEq

namespace Operation

/-- The operation that a step asks for. -/
def ofInstant? : Instant → Option Operation
  | .tryAcquire mode => some (.tryAcquire mode)
  | .unlock mode => some (.unlock mode)
  | .tryUpgrade => some .tryUpgrade
  | .downgrade => some .downgrade
  | _ => none

/-- The operation that a step on a lock asks for. -/
def ofStep? : Step → Option Operation
  | .instant what => ofInstant? what
  | .waiting (.acquire mode) => some (.acquire mode)
  | _ => none

/-- The operation that a stopped call is in. -/
def ofCall? : Call → Option Operation
  | .onLock (.read _ _) => some (.acquire .read)
  | .onLock (.write _ _) => some (.acquire .write)
  | _ => none

/-- Only acquisitions are stopped in. -/
theorem ofCall?_eq_acquire {call : Call} {op : Operation} (h : ofCall? call = some op) :
    ∃ mode, op = .acquire mode := by
  cases call with
  | onLock call =>
      cases call with
      | read guard? place => exact ⟨.read, (Option.some.inj h).symm⟩
      | write guard? place => exact ⟨.write, (Option.some.inj h).symm⟩
      | awaitEmpty => cases h
      | awaitLowered => cases h
  | onPayload call => cases h

/-- What is given up or traded has to be held. -/
def Allowed (h : Holds) : Operation → Prop
  | .acquire _ | .tryAcquire _ => True
  | .unlock mode => 0 < h.count mode
  | .tryUpgrade => 0 < h.reads
  | .downgrade => 0 < h.writes

instance (h : Holds) : DecidablePred (Allowed h)
  | .acquire _ | .tryAcquire _ => inferInstanceAs (Decidable True)
  | .unlock mode => inferInstanceAs (Decidable (0 < h.count mode))
  | .tryUpgrade => inferInstanceAs (Decidable (0 < h.reads))
  | .downgrade => inferInstanceAs (Decidable (0 < h.writes))

/-- The holds after an operation that succeeded. -/
def settle (h : Holds) : Operation → Holds
  | .acquire mode | .tryAcquire mode => h.gain mode
  | .unlock mode => h.lose mode
  | .tryUpgrade => (h.lose .read).gain .write
  | .downgrade => (h.lose .write).gain .read

/-- The holds after an operation that was answered. -/
def after (op : Operation) (reply : Reply) (h : Holds) : Holds :=
  if reply = .ok then op.settle h else h

@[simp] theorem after_ok (op : Operation) (h : Holds) : op.after .ok h = op.settle h := if_pos rfl

theorem after_of_ne {reply : Reply} (op : Operation) (h : Holds) (hr : reply ≠ .ok) :
    op.after reply h = h := if_neg hr

/-- An operation was answered and broke no contract. It leaves the lock `m`
balanced, with `owners` and `raisers` the stakes of the calls under way, and
what it granted it granted while the flag was down or nobody was registered. -/
structure Answered (op : Operation) (h : Holds) (m : Lock) (reply : Reply)
    (owners raisers : Nat) : Prop where
  kept : ∀ breach, reply ≠ .violated breach
  balanced : m.Balanced (op.after reply h).reads ((op.after reply h).writes + owners) raisers
  sheltered : m.flag = false ∨ m.isEmpty = true ∨
    ((op.after reply h).reads ≤ h.reads ∧ (op.after reply h).writes ≤ h.writes)

namespace Answered

variable {op : Operation} {h : Holds} {m : Lock} {reply : Reply} {owners raisers : Nat}

/-- The answer to an operation that succeeded. -/
theorem granted
    (hb : m.Balanced (op.settle h).reads ((op.settle h).writes + owners) raisers)
    (hs : m.flag = false ∨ m.isEmpty = true ∨
      ((op.settle h).reads ≤ h.reads ∧ (op.settle h).writes ≤ h.writes)) :
    Answered op h m .ok owners raisers :=
  ⟨by simp, (after_ok op h).symm ▸ hb, (after_ok op h).symm ▸ hs⟩

/-- The answer to an attempt that failed. -/
theorem declined (why : Busy) (hb : m.Balanced h.reads (h.writes + owners) raisers) :
    Answered op h m (.ofAttempt (.error why)) owners raisers := by
  have hok : Reply.ofAttempt (.error why) ≠ .ok := by
    simp [Reply.ofAttempt]
  refine ⟨by simp [Reply.ofAttempt], ?_, .inr (.inr ?_)⟩
  · rw [after_of_ne op h hok]
    exact hb
  · rw [after_of_ne op h hok]
    exact ⟨Nat.le_refl _, Nat.le_refl _⟩

end Answered

end Operation

namespace Lock

variable {l : Lock} {readers owners raisers : Nat}

theorem tryWrite_of_barred (h : l.isBarred = true) : l.tryWrite = (l, .error .barred) := by
  rw [tryWrite, if_pos h]

theorem tryUpgrade_of_barred (h : l.isBarred = true) : l.tryUpgrade = (l, .error .barred) := by
  rw [tryUpgrade, if_pos h]

namespace Balanced

theorem tryRead (h : l.Balanced readers owners raisers) :
    (∃ m, l.tryRead = (m, .ok ()) ∧ m.flag = false ∧ m.Balanced (readers + 1) owners raisers) ∨
      ∃ m, l.tryRead = (m, .error .written) ∧ m.Balanced readers owners raisers := by
  rw [Lock.tryRead]
  split
  · exact .inr ⟨_, rfl, h.arrive.depart⟩
  · next hf => exact .inl ⟨_, rfl, Bool.not_eq_true _ ▸ hf, h.arrive⟩

theorem tryWrite (h : l.Balanced readers owners raisers) :
    (∃ m, l.tryWrite = (m, .ok ()) ∧ m.isEmpty = true ∧
        m.Balanced readers (owners + 1) raisers) ∨
      ∃ why, l.tryWrite = (l, .error why) := by
  rw [Lock.tryWrite]
  split
  · exact .inr ⟨_, rfl⟩
  · cases hf : l.flag with
    | true =>
        rw [claim_of_flag hf]
        exact .inr ⟨_, rfl⟩
    | false =>
        obtain rfl := h.owners_eq_zero hf
        obtain ⟨m, hclaim, hm, -⟩ := h.claim
        simp only [hclaim]
        split
        · next he => exact .inl ⟨m, rfl, he, hm⟩
        · exact .inr ⟨_, rfl⟩

theorem tryUpgrade (h : l.Balanced (readers + 1) owners raisers) :
    (∃ m, l.tryUpgrade = (m, .ok ()) ∧ m.isEmpty = true ∧
        m.Balanced readers (owners + 1) raisers) ∨
      ∃ m why, l.tryUpgrade = (m, .error why) ∧ m.Balanced (readers + 1) owners raisers := by
  rw [Lock.tryUpgrade]
  split
  · exact .inr ⟨_, _, rfl, h⟩
  · cases hf : l.flag with
    | true =>
        rw [claim_of_flag hf]
        exact .inr ⟨_, _, rfl, h⟩
    | false =>
        obtain rfl := h.owners_eq_zero hf
        obtain ⟨m, hclaim, hm, -⟩ := h.claim
        simp only [hclaim]
        split
        · next he => exact .inl ⟨_, rfl, he, hm.depart⟩
        · exact .inr ⟨_, _, rfl, h.depart.arrive⟩

theorem downgrade (h : l.Balanced readers (owners + 1) raisers) :
    ∃ m, l.downgrade = (m, .ok ()) ∧ m.flag = false ∧
      m.Balanced (readers + 1) owners raisers :=
  h.arrive.release

/-- Exclusion is kept by what is granted while the flag is down or nobody is
registered, as long as the readers can be counted in a word. -/
theorem exclusive {h h' : Holds} (hb : l.Balanced h'.reads (h'.writes + owners) raisers)
    (hs : l.flag = false ∨ l.isEmpty = true ∨ (h'.reads ≤ h.reads ∧ h'.writes ≤ h.writes))
    (hx : h.Exclusive) (few : h'.reads < 2 ^ 32) : h'.Exclusive := by
  have hle := hb.owners_le
  constructor
  · omega
  · intro hw
    obtain hf | he | ⟨hr, hw'⟩ := hs
    · have hzero := hb.owners_eq_zero hf
      omega
    · have hmod := hb.isEmpty_iff.mp he
      omega
    · have hone : h.writes = 1 := by
        have hatMost := hx.1
        omega
      have hnone := hx.2 hone
      omega

end Balanced

end Lock

namespace Operation

open Lock

variable {l : Lock} {h : Holds} {owners raisers : Nat}

/-- A step that never waits keeps the contract if its operation is allowed. -/
theorem run_answered {what : Instant} {op : Operation} (ho : ofInstant? what = some op)
    (ha : op.Allowed h) (hb : l.Balanced h.reads (h.writes + owners) raisers) :
    Answered op h (what.run l).1 (what.run l).2 owners raisers := by
  obtain ⟨reads, writes⟩ := h
  cases what with
  | tryAcquire mode =>
      obtain rfl := Option.some.inj ho
      cases mode with
      | read =>
          change Answered _ _ (l.tryRead.map id Reply.ofAttempt).1 (l.tryRead.map id _).2 _ _
          rcases hb.tryRead with ⟨m, hr, hf, hm⟩ | ⟨m, hr, hm⟩
          · rw [hr]
            exact .granted hm (.inl hf)
          · rw [hr]
            exact .declined _ hm
      | write =>
          change Answered _ _ (l.tryWrite.map id Reply.ofAttempt).1 (l.tryWrite.map id _).2 _ _
          rcases hb.tryWrite with ⟨m, hr, he, hm⟩ | ⟨why, hr⟩
          · rw [hr]
            exact .granted (Nat.add_right_comm writes owners 1 ▸ hm) (.inr (.inl he))
          · rw [hr]
            exact .declined _ hb
  | unlock mode =>
      obtain rfl := Option.some.inj ho
      cases mode with
      | read =>
          obtain ⟨reads, rfl⟩ := Nat.exists_eq_succ_of_ne_zero (Nat.ne_of_gt ha)
          exact .granted hb.depart (.inr (.inr ⟨Nat.le_succ _, Nat.le_refl _⟩))
      | write =>
          obtain ⟨writes, rfl⟩ := Nat.exists_eq_succ_of_ne_zero (Nat.ne_of_gt ha)
          obtain ⟨m, hr, hf, hm⟩ := (Nat.succ_add writes owners ▸ hb).release
          change Answered _ _ (l.release.map id Reply.ofCheck).1 (l.release.map id _).2 _ _
          rw [hr]
          exact .granted hm (.inl hf)
  | tryUpgrade =>
      obtain rfl := Option.some.inj ho
      obtain ⟨reads, rfl⟩ := Nat.exists_eq_succ_of_ne_zero (Nat.ne_of_gt ha)
      change Answered _ _ (l.tryUpgrade.map id Reply.ofAttempt).1 (l.tryUpgrade.map id _).2 _ _
      rcases hb.tryUpgrade with ⟨m, hr, he, hm⟩ | ⟨m, why, hr, hm⟩
      · rw [hr]
        exact .granted (Nat.add_right_comm writes owners 1 ▸ hm) (.inr (.inl he))
      · rw [hr]
        exact .declined _ hm
  | downgrade =>
      obtain rfl := Option.some.inj ho
      obtain ⟨writes, rfl⟩ := Nat.exists_eq_succ_of_ne_zero (Nat.ne_of_gt ha)
      obtain ⟨m, hr, hf, hm⟩ := (Nat.succ_add writes owners ▸ hb).downgrade
      change Answered _ _ (l.downgrade.map id Reply.ofCheck).1 (l.downgrade.map id _).2 _ _
      rw [hr]
      exact .granted hm (.inl hf)
  | _ => cases ho

/-- A release either is a success or breaks the contract. -/
theorem unlock_ok {mode : Mode}
    (kept : ∀ breach, ((Instant.unlock mode).run l).2 ≠ .violated breach) :
    ((Instant.unlock mode).run l).2 = .ok := by
  change Reply.ofCheck (l.unlock mode).2 = .ok
  have hkept : ∀ breach, Reply.ofCheck (l.unlock mode).2 ≠ .violated breach := kept
  cases hr : (l.unlock mode).2 with
  | ok => rfl
  | error breach =>
      rw [hr] at hkept
      exact absurd rfl (hkept breach)

end Operation

end ReaderWriter
