import ReaderWriter.Proofs.Guard.Names
import ReaderWriter.Proofs.Guard.Use
import ReaderWriter.Proofs.Session.Ledger

/-!
# Tenancies

A tenancy is a session together with the holds on one of its locks whose guards
were forgotten. The holds on the lock are these, and one for every guard over
the object that is alive; so nothing of the guards has to be remembered apart.

A script keeps to guards if every turn that concerns the object resumes a call,
makes a guard, uses one, or asks whether the lock is held.
-/

namespace ReaderWriter

namespace Holds

/-- The holds of both kinds together. -/
def add (h h' : Holds) : Holds :=
  ⟨h.reads + h'.reads, h.writes + h'.writes⟩

theorem gain_add (h h' : Holds) (mode : Mode) : (h.gain mode).add h' = (h.add h').gain mode := by
  cases mode with
  | read => rw [gain, gain, add, add, Nat.add_right_comm]
  | write => rw [gain, gain, add, add, Nat.add_right_comm]

theorem add_gain (h h' : Holds) (mode : Mode) : h.add (h'.gain mode) = (h.add h').gain mode := by
  cases mode <;> rfl

/-- A part of what is held exclusively is held exclusively. -/
theorem Exclusive.of_add {h h' : Holds} (hx : (h.add h').Exclusive) : h.Exclusive := by
  obtain ⟨hatMost, hnone⟩ := hx
  simp only [add] at hatMost hnone
  constructor
  · omega
  · intro hone
    have hreads := hnone (by omega)
    omega

/-- Nothing is held beside a hold for writing. -/
theorem eq_none_of_exclusive {h : Holds} (hx : (h.gain .write).Exclusive) : h = none := by
  have hatMost : h.writes + 1 ≤ 1 := hx.1
  have hwrites : h.writes = 0 := by omega
  have hreads : h.reads = 0 := hx.2 (congrArg Nat.succ hwrites)
  exact Holds.ext hreads hwrites

theorem gain?_add (h h' : Holds) (mode? : Option Mode) :
    (h.gain? mode?).add h' = (h.add h').gain? mode? := by
  cases mode? with
  | none => rfl
  | some mode => exact h.gain_add h' mode

end Holds

namespace Step

/-- The step is one of those that keep to guards. -/
def isOnGuards : Step → Bool
  | .resume _ | .read _ | .write _ _ | .tryGuard _ _ | .guard _ _ | .isLocked | .isWriteLocked =>
    true
  | _ => false

end Step

namespace Session

/-- The guards over an object that are alive. -/
def held (s : Session) (key : Nat) : Holds :=
  ⟨s.guards.count (· = ⟨key, .read⟩), s.guards.count (· = ⟨key, .write⟩)⟩

/-- The guards over an object under all names but one. -/
def heldOthers (s : Session) (key : Nat) (name : String) : Holds :=
  ⟨(s.guards.erase name).count (· = ⟨key, .read⟩), (s.guards.erase name).count (· = ⟨key, .write⟩)⟩

/-- The mode of the guard over the object that the turn forgets. -/
def forgets? (s : Session) (key : Nat) (t : Turn) : Option Mode :=
  match t.step with
  | .guard name .forget =>
    if (s.step t).2.reply = .ok then
      (s.guards.get? name).bind fun g => if g.object = key then some g.mode else none
    else none
  | _ => none

variable {s s' : Session} {key : Nat} {name : String} {t : Turn}

/-! ## Guards that are alive -/

/-- The guards over the object, and the one of them that may have the name. -/
theorem held_eq_heldOthers (s : Session) (key : Nat) (name : String) :
    s.held key = (s.heldOthers key name).add
      ⟨Registry.weight (· = ⟨key, .read⟩) (s.guards.get? name),
        Registry.weight (· = ⟨key, .write⟩) (s.guards.get? name)⟩ := by
  rw [held, s.guards.count_eq_count_erase_add _ name, s.guards.count_eq_count_erase_add _ name]
  rfl

/-- A guard that is alive, and those under other names. -/
theorem held_of_alive {mode : Mode} (h : s.guards.get? name = some ⟨key, mode⟩) :
    s.held key = (s.heldOthers key name).gain mode := by
  rw [held_eq_heldOthers, h]
  cases mode with
  | read => simp [Holds.add, Holds.gain]
  | write => simp [Holds.add, Holds.gain]

/-- A name that no guard over the object has does not count. -/
theorem held_of_elsewhere (h : ∀ g, s.guards.get? name = some g → g.object ≠ key) :
    s.held key = s.heldOthers key name := by
  rw [held_eq_heldOthers]
  cases hget : s.guards.get? name with
  | none => rfl
  | some g =>
      have hne : ∀ mode, g ≠ ⟨key, mode⟩ := fun mode heq => h g hget (congrArg Guard.object heq)
      simp [Holds.add, hne]

/-- Guards under other names are what they were. -/
theorem heldOthers_withGuard (s : Session) (key : Nat) (name : String) (guard? : Option Guard) :
    (s.withGuard name guard?).heldOthers key name = s.heldOthers key name := by
  have hcount : ∀ p : Guard → Bool,
      ((s.withGuard name guard?).guards.erase name).count p = (s.guards.erase name).count p := by
    intro p
    apply Registry.count_congr_of_get?
    intro other g _
    by_cases hother : other = name
    · rw [hother, Registry.get?_erase_self, Registry.get?_erase_self]
    · rw [Registry.get?_erase_of_ne _ hother, Registry.get?_erase_of_ne _ hother,
        withGuard_get?_of_ne s hother]
  rw [heldOthers, hcount, hcount]
  rfl

/-- What is held once there is a guard under a name, or none. -/
theorem held_withGuard (s : Session) (key : Nat) (name : String) (mode? : Option Mode) :
    (s.withGuard name (mode?.map (⟨key, ·⟩))).held key = (s.heldOthers key name).gain? mode? := by
  have hself := s.withGuard_get?_self name (mode?.map (⟨key, ·⟩))
  rw [← heldOthers_withGuard s key name (mode?.map (⟨key, ·⟩))]
  cases mode? with
  | none =>
      apply held_of_elsewhere
      intro g hget
      rw [hself] at hget
      cases hget
  | some mode => exact held_of_alive hself

/-- An object without guards has none that are alive. -/
theorem held_of_unguarded (h : s.Unguarded key) : s.held key = .none := by
  have hzero : ∀ mode, (s.guards.count fun g => decide (g = ⟨key, mode⟩)) = 0 := by
    intro mode
    apply Registry.count_eq_zero
    intro name g hget
    refine decide_eq_false fun hg => h name g hget ?_
    rw [hg]
  rw [held, hzero, hzero]
  rfl

/-- If the guards that are alive are exclusive, a guard for writing is alone. -/
theorem eq_of_exclusive {other : String} {g : Guard} (hx : (s.held key).Exclusive)
    (hname : s.guards.get? name = some ⟨key, .write⟩) (hother : s.guards.get? other = some g)
    (hg : g.object = key) : other = name := by
  obtain ⟨object, mode⟩ := g
  obtain rfl := hg
  by_contra hne
  rw [held_of_alive hname] at hx
  have halive : ({ s with guards := s.guards.erase name } : Session).guards.get? other =
      some ⟨object, mode⟩ := (Registry.get?_erase_of_ne _ hne).trans hother
  have hone := held_of_alive halive
  have hnone : ({ s with guards := s.guards.erase name } : Session).held object = .none :=
    Holds.eq_none_of_exclusive hx
  rw [hnone] at hone
  cases mode with
  | read => exact Nat.succ_ne_zero _ (congrArg Holds.reads hone).symm
  | write => exact Nat.succ_ne_zero _ (congrArg Holds.writes hone).symm

theorem Agrees.held (h : s.Agrees key s') : s'.held key = s.held key := by
  have hcount : ∀ mode, s'.guards.count (· = ⟨key, mode⟩) = s.guards.count (· = ⟨key, mode⟩) := by
    intro mode
    apply Registry.count_congr_of_get?
    intro name g hg
    exact h.guards name g (of_decide_eq_true hg ▸ rfl)
  rw [Session.held, hcount, hcount]
  rfl

/-! ## Guards that are forgotten -/

/-- Only a use of a guard over the object forgets one. -/
theorem forgets?_of_not_uses (h : ¬ s.Uses key t) : s.forgets? key t = none := by
  rw [forgets?]
  split
  · next name asked =>
      split
      · cases hget : s.guards.get? name with
        | none => rfl
        | some g =>
            have hne : g.object ≠ key := fun hg => h ⟨name, .forget, asked, g, hget, hg⟩
            exact if_neg hne
      · rfl
  · rfl

theorem not_uses_of_step (h : ∀ name use, t.step ≠ .guard name use) : ¬ s.Uses key t := by
  rintro ⟨name, use, asked, -⟩
  exact h name use asked

theorem forgets?_of_step (h : ∀ name use, t.step ≠ .guard name use) : s.forgets? key t = none :=
  forgets?_of_not_uses (not_uses_of_step h)

theorem forgets?_of_reply (h : (s.step t).2.reply ≠ .ok) : s.forgets? key t = none := by
  rw [forgets?]
  split
  · exact if_neg h
  · rfl

/-- What a use of a guard forgets. -/
theorem forgets?_of_use {mode : Mode} {use : GuardUse} (asked : t.step = .guard name use)
    (alive : s.guards.get? name = some ⟨key, mode⟩)
    (hok : use = .forget → (s.step t).2.reply = .ok) :
    s.forgets? key t = if use = .forget then some mode else none := by
  rw [forgets?, asked]
  cases use with
  | forget =>
      dsimp only
      rw [if_pos (hok rfl), alive]
      simp
  | _ => rfl

end Session

/-- A session, and the holds on one of its locks whose guards were forgotten. -/
structure Tenancy where
  session : Session
  forgotten : Holds

namespace Tenancy

/-- The holds on the lock of object `key`, with a guard or without. -/
def holds (key : Nat) (b : Tenancy) : Holds :=
  (b.session.held key).add b.forgotten

/-- The holds on the lock without that of the guard under a name. -/
def others (key : Nat) (name : String) (b : Tenancy) : Holds :=
  (b.session.heldOthers key name).add b.forgotten

/-- The tenancy after a turn. -/
def next (key : Nat) (b : Tenancy) (t : Turn) : Tenancy where
  session := (b.session.step t).1
  forgotten := b.forgotten.gain? (b.session.forgets? key t)

/-- The tenancy after a script. -/
def after (key : Nat) (b : Tenancy) (script : List Turn) : Tenancy :=
  Script.run (next key) b script

/-- Every turn of the script that concerns the object keeps to guards. -/
def OnGuards (key : Nat) : Tenancy → List Turn → Prop :=
  Script.EveryTurn (next key) fun b t => b.session.Concerns key t → t.step.isOnGuards = true

/-- Fewer readers are starved at any time than the barrier can count. -/
def FewStarved (key : Nat) : Tenancy → List Turn → Prop :=
  Script.EveryTurn (next key) fun b t => b.session.peak key Stopped.isStarved t < 2 ^ 31

/-- Fewer read holds are outstanding at any time, with a guard or without, than
the counters can tell apart. -/
def FewReads (key : Nat) : Tenancy → List Turn → Prop :=
  Script.Throughout (next key) fun b => (b.holds key).reads < 2 ^ 32

variable {key : Nat} {b : Tenancy} {script : List Turn}

instance : Decidable (OnGuards key b script) := Script.EveryTurn.decidable b script

instance : Decidable (FewStarved key b script) := Script.EveryTurn.decidable b script

instance : Decidable (FewReads key b script) := Script.Throughout.decidable b script

/-- The tenancy follows its session. -/
theorem session_after : (b.after key script).session = b.session.after script := by
  induction script generalizing b with
  | nil => rfl
  | cons t rest ih => exact ih

end Tenancy

end ReaderWriter
