import ReaderWriter.Proofs.Lock.Attempt
import ReaderWriter.Proofs.Session.Soundness

/-!
# Busy is truthful

An attempt that does not wait is told why it cannot have the lock. What it is told
is read off the words, but it is true of the calls: the barrier is up just if a
starved reader is stopped, the flag is down just if nobody writes or is about to,
and the readers that are counted are the holds. No reader that steps back and no
attempt that failed leaves anything behind that a later attempt could take for a
holder.

A refused attempt has no effect that anybody could notice. It may have moved both
counters of the readers, but their difference is what it was.
-/

namespace ReaderWriter

/-- What an attempt is told that is kept off by starved readers, by owners of the
flag and by readers: the first of these obstacles, if there is any. -/
def Busy.check (raisers owners readers : Nat) : Except Busy Unit :=
  if 0 < raisers then .error .barred
  else if 0 < owners then .error .written
  else if 0 < readers then .error .readers
  else .ok ()

namespace Lock

variable {l : Lock} {readers owners raisers : Nat}

theorem tryWrite_snd (l : Lock) : l.tryWrite.2 =
    if l.isBarred then .error .barred
    else if l.flag then .error .written
    else if l.isEmpty then .ok () else .error .readers := by
  have hsame : ({ l with flag := true } : Lock).isEmpty = l.isEmpty := rfl
  simp only [tryWrite, claim]
  cases l.isBarred with
  | true => rfl
  | false =>
      cases l.flag with
      | true => rfl
      | false =>
          cases he : l.isEmpty <;> simp [hsame, he]

theorem tryUpgrade_snd (l : Lock) : l.tryUpgrade.2 =
    if l.isBarred then .error .barred
    else if l.flag then .error .written
    else if l.depart.isEmpty then .ok () else .error .readers := by
  have hsame : ({ l with flag := true } : Lock).depart.isEmpty = l.depart.isEmpty := rfl
  simp only [tryUpgrade, claim]
  cases l.isBarred with
  | true => rfl
  | false =>
      cases l.flag with
      | true => rfl
      | false =>
          cases he : l.depart.isEmpty <;> simp [hsame, he]

namespace Balanced

theorem flag_iff_pos (h : l.Balanced readers owners raisers) : l.flag = true ↔ 0 < owners := by
  have howners := h.owners_le
  rw [h.flag_iff]
  omega

theorem isEmpty_iff_not_pos (h : l.Balanced readers owners raisers) (few : readers < 2 ^ 32) :
    l.isEmpty = true ↔ ¬ 0 < readers := by
  rw [h.isEmpty_iff]
  omega

theorem tryRead_answer (h : l.Balanced readers owners raisers) :
    l.tryRead.2 = Busy.check 0 owners 0 := by
  have hsame : l.tryRead.2 = if l.flag then .error .written else .ok () := by
    rw [Lock.tryRead, arrive_flag]
    split <;> rfl
  simp only [hsame, h.flag_iff_pos, Busy.check, Nat.lt_irrefl, if_false]

theorem tryWrite_answer (h : l.Balanced readers owners raisers) (few : readers < 2 ^ 32) :
    l.tryWrite.2 = Busy.check raisers owners readers := by
  simp only [tryWrite_snd, h.isBarred_iff, h.flag_iff_pos, h.isEmpty_iff_not_pos few, ite_not,
    Busy.check]

/-- The caller's own hold is no obstacle to an upgrade. -/
theorem tryUpgrade_answer (h : l.Balanced (readers + 1) owners raisers)
    (few : readers < 2 ^ 32) : l.tryUpgrade.2 = Busy.check raisers owners readers := by
  simp only [tryUpgrade_snd, h.isBarred_iff, h.flag_iff_pos, h.depart.isEmpty_iff_not_pos few,
    ite_not, Busy.check]

end Balanced

end Lock

namespace Ledger

variable {s : Session} {key actor : Nat} {o : Object} {l : Lock} {b : Ledger} {script : List Turn}

/-- After a turn all is as it was before: the holds, the calls that are stopped and
what they have done, and what the words show. -/
structure Spared (key : Nat) (b b' : Ledger) : Prop where
  holds : b'.holds = b.holds
  stopped : b'.session.stopped = b.session.stopped
  draining : b'.session.draining key = b.session.draining key
  starved : b'.session.starved key = b.session.starved key
  words : ∃ l m, b.session.lock? key = some l ∧ b'.session.lock? key = some m ∧ l.Alike m

/-- An actor's attempts are told of the holds and the stopped calls, and one that is
refused changes nothing. A reader that is starved has raised the barrier, and a writer
that drains owns the flag. An upgrade does not find the caller's own hold in its way. -/
structure Candid (key actor : Nat) (b : Ledger) : Prop where
  read : (b.session.step ⟨actor, key, .instant (.tryAcquire .read)⟩).2.reply =
    .ofAttempt (Busy.check 0 (b.holds.writes + b.session.draining key) 0)
  write : (b.session.step ⟨actor, key, .instant (.tryAcquire .write)⟩).2.reply =
    .ofAttempt (Busy.check (b.session.starved key) (b.holds.writes + b.session.draining key)
      b.holds.reads)
  upgrade : 0 < b.holds.reads →
    (b.session.step ⟨actor, key, .instant .tryUpgrade⟩).2.reply =
      .ofAttempt (Busy.check (b.session.starved key) (b.session.draining key) (b.holds.reads - 1))
  spared : ∀ what why, (b.session.step ⟨actor, key, .instant what⟩).2.reply = .busy why →
    Spared key b (b.next key ⟨actor, key, .instant what⟩)

namespace Sound

theorem spared {P : Stopped → Prop} {what : Instant} {why : Busy} (h : Sound key P b o l)
    (hfree : b.session.stopped.get? actor = none)
    (hbusy : (b.session.step ⟨actor, key, .instant what⟩).2.reply = .busy why) :
    Spared key b (b.next key ⟨actor, key, .instant what⟩) := by
  have hreply : (b.session.step ⟨actor, key, .instant what⟩).2.reply = (what.run l).2 := by
    rw [Session.step, Session.take_instant what hfree h.object h.lock]
    rfl
  rw [hreply] at hbusy
  obtain ⟨⟨op, hop⟩, halike⟩ := Instant.run_busy hbusy
  rw [(next_instant h.object h.lock hfree hop).1]
  refine ⟨?_, rfl, rfl, rfl, l, (what.run l).1, Session.lock?_eq h.object h.lock, ?_, halike⟩
  · rw [hbusy, Operation.after_of_ne]
    simp
  · exact Session.lock?_eq (Registry.get?_insert_self _ _ _) (Object.lock?_withLock_of h.lock _)

theorem candid (h : Sound key Stopped.InOperation b o l) (hx : b.holds.Exclusive)
    (few : b.holds.reads < 2 ^ 32) (hfree : b.session.stopped.get? actor = none) :
    b.Candid key actor := by
  have hb := h.balanced
  rw [h.raised_eq_starved] at hb
  refine ⟨?_, ?_, ?_, fun what why => h.spared hfree⟩
  · rw [(next_instant h.object h.lock hfree rfl).2, ← hb.tryRead_answer]
    rfl
  · rw [(next_instant h.object h.lock hfree rfl).2, ← hb.tryWrite_answer few]
    rfl
  · intro hr
    have hwrites : b.holds.writes = 0 := by
      have hle := hx.1
      have hnone := hx.2
      omega
    have hone : b.holds.reads - 1 + 1 = b.holds.reads := Nat.sub_add_cancel hr
    rw [← hone, hwrites, Nat.zero_add] at hb
    rw [(next_instant h.object h.lock hfree rfl).2, ← hb.tryUpgrade_answer (by omega)]
    rfl

end Sound

/-- In every state that a disciplined script on a fresh lock comes to, whoever is
not stopped is told the truth: the first obstacle there is among those that starved
readers, writers and readers put up, or that there is none. A refusal changes
nothing for anybody. -/
theorem attempts_candid (fresh : s.Fresh key o)
    (disciplined : Disciplined key ⟨s, .none⟩ script)
    (fewReads : FewReads key ⟨s, .none⟩ script)
    (fewStarved : FewStarved key ⟨s, .none⟩ script) :
    Throughout key (fun b => ∀ actor, b.session.stopped.get? actor = none → b.Candid key actor)
      ⟨s, .none⟩ script := by
  have hexclusive := exclusive_throughout fresh disciplined fewReads fewStarved
  apply (hexclusive.and fewReads).mono
  rintro b ⟨⟨hx, l, hb⟩, few⟩ actor hfree
  exact hb.candid hx few hfree

/-- Two readers keep each other from an upgrade. A writer drains them and one has left,
while a third reader has lost its patience. -/
def standoff : List Turn :=
  [⟨0, 0, .waiting (.acquire .read)⟩, ⟨1, 0, .instant (.tryAcquire .read)⟩,
    ⟨0, 0, .instant .tryUpgrade⟩, ⟨2, 0, .waiting (.acquire .write)⟩,
    ⟨3, 0, .instant (.tryAcquire .read)⟩, ⟨3, 0, .waiting (.acquire .read)⟩,
    ⟨3, 0, .resume 501⟩, ⟨1, 0, .instant (.unlock .read)⟩]

/-- The reader that is left would wait for the writer that waits for it, so it is refused. -/
theorem attempts_candid_standoff :
    let b := after 0 ⟨.start (.bare .fresh), .none⟩ standoff
    (b.session.step ⟨4, 0, .instant (.tryAcquire .read)⟩).2.reply = .busy .written ∧
      (b.session.step ⟨4, 0, .instant (.tryAcquire .write)⟩).2.reply = .busy .barred ∧
      Spared 0 b (b.next 0 ⟨0, 0, .instant .tryUpgrade⟩) := by
  intro b
  have fresh : (Session.start (.bare .fresh)).Fresh 0 (.bare .fresh) := Session.start_fresh rfl
  have disciplined : Disciplined 0 ⟨.start (.bare .fresh), .none⟩ standoff := by decide +kernel
  have hcandid : ∀ actor, b.session.stopped.get? actor = none → b.Candid 0 actor :=
    (attempts_candid fresh disciplined (by decide +kernel) (by decide +kernel)).last
  refine ⟨?_, ?_, ?_⟩
  · rw [(hcandid 4 (by decide +kernel)).read]
    decide +kernel
  · rw [(hcandid 4 (by decide +kernel)).write]
    decide +kernel
  · exact (hcandid 0 (by decide +kernel)).spared .tryUpgrade .barred (by decide +kernel)

end Ledger

end ReaderWriter
