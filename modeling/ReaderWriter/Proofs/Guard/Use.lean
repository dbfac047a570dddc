import ReaderWriter.Proofs.Lock.Operation

/-!
# Uses of a guard

A guard stands for one hold on the lock of its vector. What its uses do to the
lock is what the operation behind them does, so a lock that is balanced against
the guard's hold and any others stays so. Only a push and a pop change the
vector, and only a guard for writing has them.

A guard that is forgotten is gone, but its hold stays on the lock.
-/

namespace ReaderWriter

namespace Holds

/-- The holds, and one more if there is a mode. -/
def gain? (h : Holds) (mode? : Option Mode) : Holds :=
  mode?.elim h h.gain

@[simp] theorem gain?_none (h : Holds) : h.gain? .none = h := rfl

end Holds

namespace GuardUse

/-- The mode of a guard after a use that succeeded, if the guard is alive then. -/
def mode? (mode : Mode) (use : GuardUse) : Option Mode :=
  match mode, use with
  | _, .release | _, .forget => none
  | .read, .upgrade => some .write
  | .write, .downgrade => some .read
  | mode, _ => some mode

/-- The mode of the hold that a use leaves on the lock, if it leaves one, of a
guard in the first mode that is in the second mode afterwards. -/
def hold? (mode : Mode) (mode? : Option Mode) : GuardUse → Option Mode
  | .forget => some mode
  | _ => mode?

/-- The use changes the vector, from the first to the second. -/
inductive Edits : GuardUse → List Int → List Int → Prop
  | push (value : Int) (values : List Int) : Edits (.push value) values (values ++ [value])
  | pop (values : List Int) : Edits .pop values values.dropLast

/-- A guard in the given mode, over a vector, was used and broke no contract. It
leaves the lock balanced against the other holds `h` and its own. -/
structure Served (use : GuardUse) (h : Holds) (mode : Mode) (values : List Int)
    (r : GuardOutcome) (owners raisers : Nat) : Prop where
  kept : ∀ breach, r.reply ≠ .violated breach
  balanced : r.lock.Balanced (h.gain? (use.hold? mode r.mode?)).reads
    ((h.gain? (use.hold? mode r.mode?)).writes + owners) raisers
  sheltered : r.lock.flag = false ∨ r.lock.isEmpty = true ∨
    ((h.gain? (use.hold? mode r.mode?)).reads ≤ (h.gain mode).reads ∧
      (h.gain? (use.hold? mode r.mode?)).writes ≤ (h.gain mode).writes)
  alive : r.mode? = if r.reply = .ok then use.mode? mode else some mode
  data : r.values = values ∨ mode = .write ∧ use.Edits values r.values

variable {use : GuardUse} {h : Holds} {mode : Mode} {l : Lock} {values : List Int}
variable {r : GuardOutcome} {owners raisers : Nat}

/-- The use leaves the lock alone. -/
theorem Served.of_lock
    (hb : l.Balanced (h.gain mode).reads ((h.gain mode).writes + owners) raisers)
    {mode? : Option Mode} {values' : List Int} {reply : Reply}
    (hhold : use.hold? mode mode? = some mode) (kept : ∀ breach, reply ≠ .violated breach)
    (alive : mode? = if reply = .ok then use.mode? mode else some mode)
    (data : values' = values ∨ mode = .write ∧ use.Edits values values') :
    use.Served h mode values ⟨l, values', mode?, reply⟩ owners raisers := by
  refine ⟨kept, ?_, ?_, alive, data⟩
  · rw [hhold]
    exact hb
  · rw [hhold]
    exact .inr (.inr ⟨Nat.le_refl _, Nat.le_refl _⟩)

/-- Every use that a guard allows keeps the contract of the lock. -/
theorem run?_served (hb : l.Balanced (h.gain mode).reads ((h.gain mode).writes + owners) raisers)
    (hr : use.run? l values mode = some r) : use.Served h mode values r owners raisers := by
  obtain ⟨reads, writes⟩ := h
  cases use with
  | get => cases mode <;> cases hr <;> exact .of_lock hb rfl (by simp) (by simp) (.inl rfl)
  | forget =>
      cases mode <;> cases hr <;> exact .of_lock hb rfl (by simp) (by simp [mode?]) (.inl rfl)
  | push value =>
      cases mode with
      | read => cases hr
      | write =>
          cases hr
          exact .of_lock hb rfl (by simp) (by simp [mode?]) (.inr ⟨rfl, .push value values⟩)
  | pop =>
      cases mode with
      | read => cases hr
      | write =>
          cases hr
          exact .of_lock hb rfl (by simp) (by simp) (.inr ⟨rfl, .pop values⟩)
  | upgrade =>
      cases mode with
      | write => cases hr
      | read =>
          rw [run?] at hr
          obtain ⟨m, hm, he, hb'⟩ | ⟨m, why, hm, hb'⟩ := hb.tryUpgrade
          · rw [hm] at hr
            cases hr
            exact ⟨by simp, Nat.add_right_comm writes owners 1 ▸ hb', .inr (.inl he), rfl, .inl rfl⟩
          · rw [hm] at hr
            cases hr
            exact .of_lock hb' rfl (by simp) (by simp) (.inl rfl)
  | downgrade =>
      cases mode with
      | read => cases hr
      | write =>
          rw [run?] at hr
          obtain ⟨m, hm, hf, hb'⟩ := (Nat.succ_add writes owners ▸ hb).downgrade
          rw [hm] at hr
          cases hr
          exact ⟨by simp, hb', .inl hf, rfl, .inl rfl⟩
  | release =>
      cases mode with
      | read =>
          cases hr
          exact ⟨by simp [Lock.unlock, Reply.ofCheck], hb.depart,
            .inr (.inr ⟨Nat.le_succ _, Nat.le_refl _⟩), rfl, .inl rfl⟩
      | write =>
          obtain ⟨m, hm, hf, hb'⟩ := (Nat.succ_add writes owners ▸ hb).release
          have hunlock : l.unlock .write = (m, .ok ()) := hm
          simp only [run?, hunlock] at hr
          cases hr
          exact ⟨by simp [Reply.ofCheck], hb', .inl hf, rfl, .inl rfl⟩

/-- A guard that is forgotten is gone, and that is a success. -/
theorem run?_forget (hr : GuardUse.forget.run? l values mode = some r) :
    r.mode? = none ∧ r.reply = .ok := by
  cases mode <;> cases hr <;> exact ⟨rfl, rfl⟩

end GuardUse

end ReaderWriter
