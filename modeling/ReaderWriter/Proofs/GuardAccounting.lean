import ReaderWriter.Proofs.Guard.Soundness
import ReaderWriter.Proofs.Session.Teardown

/-!
# The guards account for the lock

The counters of a lock know nothing of guards, yet along a script that keeps to
guards they show exactly the guards over the vector that are alive or were
forgotten, and the flag shows the one for writing or the writer that still
drains. So whether the lock is held is answered truthfully, and no release,
upgrade or downgrade breaks its contract.

A guard that is forgotten leaves its hold behind for ever. Once nobody is left
who could release anything, the vector can be taken out of the lock just if
that never happened.
-/

namespace ReaderWriter.Tenancy

open Session

/-- A stopped call owns the flag of the lock and waits for readers to leave. -/
def Draining (key : Nat) (b : Tenancy) : Prop :=
  ∃ actor, b.session.Stands key actor Stopped.drains

/-- The words of the lock show the guards over the object, alive or forgotten,
and the writer that drains, and so do the answers to those who ask. -/
structure Accounted (key : Nat) (b : Tenancy) (l : Lock) : Prop where
  /-- Guards for reading and for writing are never there together, alive or forgotten. -/
  exclusive : ((b.session.held key).add b.forgotten).Exclusive
  readers : l.registered.toNat = (b.session.held key).reads + b.forgotten.reads
  flag : l.flag = true ↔
    0 < (b.session.held key).writes ∨ 0 < b.forgotten.writes ∨ b.Draining key
  locked : l.isLocked = true ↔
    b.session.held key ≠ .none ∨ b.forgotten ≠ .none ∨ b.Draining key
  answers : ∀ actor, b.session.stopped.get? actor = none →
    (b.session.step ⟨actor, key, .isLocked⟩).2.reply = .truth l.isLocked ∧
      (b.session.step ⟨actor, key, .isWriteLocked⟩).2.reply = .truth l.flag

/-- No guard over the object is alive, and no call is stopped on it. -/
def Vacant (key : Nat) (b : Tenancy) : Prop :=
  b.session.Unguarded key ∧ ∀ actor c, b.session.stopped.get? actor = some c → c.object ≠ key

/-- What the taking of the vector out of its lock answers. -/
structure GivesUp (key : Nat) (b : Tenancy) (values : List Int) (reply : Reply) : Prop where
  given : reply = .numbers values ↔ b.forgotten = .none
  written : 0 < b.forgotten.writes → reply = .violated .destroyedWriteLocked
  read : 0 < b.forgotten.reads → reply = .violated .destroyedWithReaders

variable {s : Session} {key actor : Nat} {b : Tenancy} {l : Lock} {values : List Int}
variable {script : List Turn}

theorem draining_iff : b.Draining key ↔ 0 < b.session.draining key := by
  constructor
  · rintro ⟨actor, hstands⟩
    exact tally_pos_of_stands hstands
  · intro hpos
    by_contra hnobody
    have hzero : b.session.draining key = 0 :=
      tally_eq_zero_of_stands fun actor hstands => hnobody ⟨actor, hstands⟩
    omega

/-- The reply to the taking of the vector out of a lock that nobody needs any more. -/
theorem reply_intoInner (ho : b.session.objects.get? key = some (.vector l values))
    (hv : b.Vacant key) (hfree : b.session.stopped.get? actor = none) :
    (b.session.step ⟨actor, key, .tearDown .intoInner⟩).2.reply =
      (TearDown.close l.destroy (.numbers values)).1 := by
  have hunused := inUse_eq_false hv.1 hv.2
  rw [Session.step, take_tearDown hfree ho hunused rfl]

namespace Sound

theorem accounted (h : Sound key b l values) (hx : (b.holds key).Exclusive)
    (few : (b.holds key).reads < 2 ^ 32) : b.Accounted key l := by
  have hreaders : l.registered.toNat = (b.session.held key).reads + b.forgotten.reads := by
    rw [h.balanced.readers, UInt32.toNat_ofNat', Nat.mod_eq_of_lt few]
    rfl
  have hflag : l.flag = true ↔
      0 < (b.session.held key).writes ∨ 0 < b.forgotten.writes ∨ b.Draining key := by
    have howners := h.balanced.owners_le
    rw [h.balanced.flag_iff, draining_iff]
    simp only [holds, Holds.add] at howners ⊢
    omega
  refine ⟨hx, hreaders, hflag, ?_, ?_⟩
  · have hregistered : (0 < l.registered) ↔ 0 < l.registered.toNat := UInt32.lt_iff_toNat_lt
    simp only [Lock.isLocked, Bool.or_eq_true, decide_eq_true_eq, hflag, hregistered, hreaders,
      draining_iff, ne_eq, Holds.ext_iff, Holds.none]
    omega
  · intro actor hfree
    constructor
    · rw [Session.step, take_of_free hfree h.object rfl]
      rfl
    · rw [Session.step, take_of_free hfree h.object rfl]
      rfl

/-- Where the object is vacant, what was forgotten is all that is held. -/
theorem balanced_of_vacant (h : Sound key b l values) (hv : b.Vacant key) :
    l.Balanced b.forgotten.reads b.forgotten.writes 0 := by
  have hb := h.balanced_of_quiet hv.2
  have hheld : b.holds key = b.forgotten := by
    simp [holds, held_of_unguarded hv.1, Holds.add, Holds.none]
  rw [hheld] at hb
  exact hb

theorem givesUp (h : Sound key b l values) (hv : b.Vacant key) (hx : b.forgotten.Exclusive)
    (few : b.forgotten.reads < 2 ^ 32) (hfree : b.session.stopped.get? actor = none) :
    b.GivesUp key values (b.session.step ⟨actor, key, .tearDown .intoInner⟩).2.reply := by
  have hb := h.balanced_of_vacant hv
  have hends := hb.destroy_finished_iff (π := Empty) few
  rw [reply_intoInner h.object hv hfree]
  refine ⟨?_, ?_, ?_⟩
  · rw [← hends, TearDown.close]
    cases (l.destroy : Stride Lock Empty Unit).progress with
    | paused place => exact place.elim
    | finished result => simp
    | violated breach => simp
  · intro hw
    have hone : b.forgotten.writes = 1 := by
      have hatMost := hx.1
      omega
    rw [TearDown.close, hb.destroy_written hone]
  · intro hr
    rw [TearDown.close, hb.destroy_read hx few hr]

end Sound

/-- Along every script that keeps to guards, on a vector behind a fresh lock, the
words of the lock show the guards that are alive or were forgotten, and a lock
that is vacant gives up its vector just if none was. No turn on the object breaks
a contract. -/
theorem guards_accounted (fresh : s.Fresh key (.vector .fresh values))
    (onGuards : OnGuards key ⟨s, .none⟩ script) (fewReads : FewReads key ⟨s, .none⟩ script)
    (fewStarved : FewStarved key ⟨s, .none⟩ script) :
    Script.Throughout (next key) (fun b => ∃ l values,
        b.session.objects.get? key = some (.vector l values) ∧ b.Accounted key l ∧
        (b.Vacant key → ∀ actor, b.session.stopped.get? actor = none →
          b.GivesUp key values (b.session.step ⟨actor, key, .tearDown .intoInner⟩).2.reply))
        ⟨s, .none⟩ script ∧
      Script.EveryTurn (next key) (fun b t => b.session.Touches key t →
        ∀ breach, (b.session.step t).2.reply ≠ .violated breach) ⟨s, .none⟩ script := by
  obtain ⟨hsound, hserves⟩ := sound_throughout fresh onGuards fewReads fewStarved
  constructor
  · apply (hsound.and fewReads).mono
    rintro b ⟨⟨hx, l, values, h⟩, few⟩
    have hsum : (b.session.held key).reads + b.forgotten.reads < 2 ^ 32 := few
    have hforgotten : b.forgotten.Exclusive := by
      have hswap : (b.forgotten.add (b.session.held key)).Exclusive := by
        simp only [holds, Holds.add, Nat.add_comm (b.session.held key).reads,
          Nat.add_comm (b.session.held key).writes] at hx
        exact hx
      exact hswap.of_add
    exact ⟨l, values, h.object, h.accounted hx few,
      fun hv actor hfree => h.givesUp hv hforgotten (by omega) hfree⟩
  · apply hserves.mono
    rintro b t ⟨l, l', values, values', -, -, hserves⟩
    exact hserves.kept

/-- Two guards for reading keep each other from an upgrade. When one is released
the other is upgraded, pushes, and is downgraded; a writer drains it and keeps
another reader waiting. When all have left, the reader's guard is forgotten. -/
def bequest : List Turn :=
  [⟨0, 0, .read "a"⟩, ⟨1, 0, .tryGuard "b" .read⟩, ⟨0, 0, .guard "a" .upgrade⟩,
    ⟨1, 0, .guard "b" .release⟩, ⟨0, 0, .guard "a" .upgrade⟩, ⟨0, 0, .guard "a" (.push 3)⟩,
    ⟨0, 0, .guard "a" .downgrade⟩, ⟨1, 0, .write "w" 0⟩, ⟨2, 0, .read "c"⟩, ⟨3, 0, .isLocked⟩,
    ⟨0, 0, .guard "a" .release⟩, ⟨1, 0, .resume 1⟩, ⟨1, 0, .guard "w" .release⟩,
    ⟨2, 0, .resume 1⟩, ⟨2, 0, .guard "c" .forget⟩]

/-- The hold of the forgotten guard keeps the vector in its lock. -/
theorem guards_accounted_bequest :
    Script.EveryTurn (next 0) (fun b t => b.session.Touches 0 t →
        ∀ breach, (b.session.step t).2.reply ≠ .violated breach)
        ⟨.start (.vector .fresh [1, 2]), .none⟩ bequest ∧
      ((after 0 ⟨.start (.vector .fresh [1, 2]), .none⟩ bequest).session.step
        ⟨0, 0, .tearDown .intoInner⟩).2.reply = .violated .destroyedWithReaders := by
  have fresh : (Session.start (.vector .fresh [1, 2])).Fresh 0 (.vector .fresh [1, 2]) :=
    Session.start_fresh rfl
  have onGuards : OnGuards 0 ⟨.start (.vector .fresh [1, 2]), .none⟩ bequest := by decide +kernel
  have haccounted := guards_accounted fresh onGuards (by decide +kernel) (by decide +kernel)
  obtain ⟨l, values, -, -, hvacant⟩ := haccounted.1.last
  have hnobody : (after 0 ⟨.start (.vector .fresh [1, 2]), .none⟩ bequest).Vacant 0 := by
    constructor
    · intro name g hget
      exact absurd (Registry.mem_of_get? hget) (List.eq_nil_iff_forall_not_mem.mp
        (List.isEmpty_iff.mp (by decide +kernel)) _)
    · intro actor c hget
      exact absurd (Registry.mem_of_get? hget) (List.eq_nil_iff_forall_not_mem.mp
        (List.isEmpty_iff.mp (by decide +kernel)) _)
  exact ⟨haccounted.2, (hvacant hnobody 0 (by decide +kernel)).read (by decide +kernel)⟩

end ReaderWriter.Tenancy
