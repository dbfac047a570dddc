import ReaderWriter.Proofs.Session.Soundness
import ReaderWriter.Proofs.Session.Teardown

/-!
# Exact accounting

The four words of a lock are a function of the holds that are outstanding and
of the calls that are stopped, up to the range of the reader counters. No turn
leaves a registration, the flag or a raise of the barrier behind, though most
of them take one of these for a while.

So a lock that nobody holds or waits for is as idle as a fresh one, and whether
it can be torn down is decided by the holds alone.
-/

namespace ReaderWriter

namespace Ledger

/-- The words of the lock are accounted for. The stopped calls that own the
flag are writers that drain the readers, and those that have raised the barrier
are readers that have returned from the first pause past their patience. -/
structure Accounted (key : Nat) (b : Ledger) (l : Lock) : Prop where
  readers : l.ingress - l.egress = UInt32.ofNat b.holds.reads
  flag : l.flag = true ↔ b.holds.writes + b.session.draining key = 1
  owners : b.holds.writes + b.session.draining key ≤ 1
  barrier : l.barrier.toInt = b.session.starved key

/-- What the holds say of a lock where no call is stopped. It is idle if there
are none, and the end of it is decided by them; a bare lock that is dropped
answers with that end. -/
structure AtRest (key : Nat) (b : Ledger) (l : Lock) : Prop where
  idle : b.holds = .none → l.isIdle = true
  ends : (l.destroy : Stride Lock Empty Unit).progress = .finished () ↔ b.holds = .none
  written : b.holds.writes = 1 →
    (l.destroy : Stride Lock Empty Unit).progress = .violated .destroyedWriteLocked
  read : 0 < b.holds.reads →
    (l.destroy : Stride Lock Empty Unit).progress = .violated .destroyedWithReaders
  dropped : ∀ actor, b.session.stopped.get? actor = none →
    b.session.objects.get? key = some (.bare l) →
      (b.session.step ⟨actor, key, .tearDown .drop⟩).2.reply = (TearDown.close l.destroy .ok).1

variable {s : Session} {key actor : Nat} {o : Object} {l : Lock} {b : Ledger} {script : List Turn}

/-- The dropping of a bare lock that nobody needs any more. -/
theorem reply_drop (ho : b.session.objects.get? key = some (.bare l))
    (hu : b.session.Unguarded key) (hq : b.Quiet key)
    (hfree : b.session.stopped.get? actor = none) :
    (b.session.step ⟨actor, key, .tearDown .drop⟩).2.reply =
      (TearDown.close l.destroy .ok).1 := by
  have hunused := Session.inUse_eq_false hu hq
  rw [Session.step, Session.take_tearDown hfree ho hunused rfl]

namespace Sound

theorem accounted (h : Sound key Stopped.InOperation b o l) : b.Accounted key l where
  readers := h.balanced.readers
  flag := h.balanced.flag_iff
  owners := h.balanced.owners_le
  barrier := by
    rw [← h.raised_eq_starved]
    exact h.balanced.raisers

theorem atRest {P : Stopped → Prop} (h : Sound key P b o l) (hq : b.Quiet key)
    (hx : b.holds.Exclusive) (few : b.holds.reads < 2 ^ 32) : b.AtRest key l := by
  have hb := h.balanced_of_quiet hq
  refine ⟨?_, hb.destroy_finished_iff few, hb.destroy_written, hb.destroy_read hx few,
    fun actor hfree ho => reply_drop ho h.unguarded hq hfree⟩
  intro hfree
  rw [hfree] at hb
  have hbarrier : l.barrier = 0 := Int32.toInt_inj.mp hb.raisers
  simp [Lock.isIdle, hb.readers, hb.flag_eq_false, hbarrier, Holds.none]

end Sound

/-- Along every disciplined script on a fresh lock the words are accounted for,
and where no call is stopped they show the holds alone. No turn on the lock
breaks a contract. -/
theorem words_accounted (fresh : s.Fresh key o)
    (disciplined : Disciplined key ⟨s, .none⟩ script)
    (fewReads : FewReads key ⟨s, .none⟩ script)
    (fewStarved : FewStarved key ⟨s, .none⟩ script) :
    Throughout key (fun b => ∃ l, b.session.objects.get? key = some (o.withLock l) ∧
        b.Accounted key l ∧ (b.Quiet key → b.AtRest key l)) ⟨s, .none⟩ script ∧
      EveryTurn key (fun b t => b.session.Concerns key t →
        ∀ breach, (b.session.step t).2.reply ≠ .violated breach) ⟨s, .none⟩ script := by
  have hexclusive := exclusive_throughout fresh disciplined fewReads fewStarved
  refine ⟨(hexclusive.and fewReads).mono ?_, (sound_throughout fresh disciplined fewStarved).2⟩
  rintro b ⟨⟨hx, l, hb⟩, few⟩
  exact ⟨l, hb.object, hb.accounted, fun hq => hb.atRest hq hx few⟩

/-- A writer owns the flag and drains a reader, a second reader raises the
barrier meanwhile, and a second writer comes after it. In the end everything is
released. -/
def relay : List Turn :=
  [⟨0, 0, .waiting (.acquire .read)⟩, ⟨1, 0, .waiting (.acquire .write)⟩,
    ⟨2, 0, .waiting (.acquire .read)⟩, ⟨2, 0, .resume 501⟩,
    ⟨3, 0, .waiting (.acquire .write)⟩, ⟨0, 0, .instant (.unlock .read)⟩, ⟨1, 0, .resume 1⟩,
    ⟨1, 0, .instant (.unlock .write)⟩, ⟨2, 0, .resume 1⟩, ⟨3, 0, .resume 1⟩,
    ⟨2, 0, .instant (.unlock .read)⟩, ⟨3, 0, .resume 1⟩, ⟨3, 0, .instant (.unlock .write)⟩]

theorem words_accounted_relay :
    Throughout 0 (fun b => ∃ l, b.session.objects.get? 0 = some ((Object.bare .fresh).withLock l) ∧
        b.Accounted 0 l ∧ (b.Quiet 0 → b.AtRest 0 l)) ⟨.start (.bare .fresh), .none⟩ relay ∧
      EveryTurn 0 (fun b t => b.session.Concerns 0 t →
        ∀ breach, (b.session.step t).2.reply ≠ .violated breach)
        ⟨.start (.bare .fresh), .none⟩ relay ∧
      ∃ l, (after 0 ⟨.start (.bare .fresh), .none⟩ relay).session.objects.get? 0 =
        some (.bare l) ∧ l.isIdle = true := by
  have fresh : (Session.start (.bare .fresh)).Fresh 0 (.bare .fresh) := Session.start_fresh rfl
  have disciplined : Disciplined 0 ⟨.start (.bare .fresh), .none⟩ relay := by decide +kernel
  have haccounted := words_accounted fresh disciplined (by decide +kernel) (by decide +kernel)
  obtain ⟨l, hobject, -, hrest⟩ := haccounted.1.last
  have hquiet : (after 0 ⟨.start (.bare .fresh), .none⟩ relay).Quiet 0 := by
    intro actor c hget
    have hnobody : (after 0 ⟨.start (.bare .fresh), .none⟩ relay).session.stopped.entries = [] :=
      List.isEmpty_iff.mp (by decide +kernel)
    rw [Registry.get?, hnobody] at hget
    cases hget
  exact ⟨haccounted.1, haccounted.2, l, hobject, (hrest hquiet).idle (by decide +kernel)⟩

end Ledger

end ReaderWriter
