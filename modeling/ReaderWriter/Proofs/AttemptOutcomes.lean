import Mathlib.Tactic.SplitIfs
import ReaderWriter.Proofs.Lock.Attempt
import ReaderWriter.Proofs.Session.Frame
import ReaderWriter.Proofs.Session.Resumption

/-!
# What attempts come to

The operations that never wait are decided by the four words of the lock, whatever
these show and however they have come about: the counters may have wrapped, the
barrier may be below zero, and the caller may hold nothing. An attempt moves the
words that are named here and no others. It stops nobody and logs nothing.

An attempt that is refused leaves the caller with just what it held. An upgrade
that is granted leaves no reader, and a downgrade takes it back; an upgrade takes a
downgrade back unless the barrier or another reader is in the way.
-/

namespace ReaderWriter

namespace Lock

variable {l m n : Lock}

/-- An upgrade that is granted has given up the only registration, and a downgrade
makes it again. -/
theorem tryUpgrade_downgrade (h : l.tryUpgrade = (m, .ok ())) :
    m.registered = 0 ∧ m.flag = true ∧ ∃ n, m.downgrade = (n, .ok ()) ∧ l.Alike n := by
  rw [tryUpgrade_eq] at h
  split at h
  · cases h
  · split at h
    · cases h
    · next hflag =>
        split at h
        · next hone =>
            cases h
            refine ⟨?_, rfl, _, rfl, ?_, rfl, (Bool.not_eq_true _ ▸ hflag : l.flag = false).symm⟩
            · rw [registered, hone, UInt32.sub_self]
            · simp only [registered, arrive]
              grind
        · cases h

/-- After a downgrade an upgrade is refused just if the barrier is up or somebody else
is registered. -/
theorem downgrade_tryUpgrade (h : l.downgrade = (m, .ok ())) :
    m.tryUpgrade.2 =
        (if 0 < l.barrier then .error .barred
          else if l.ingress = l.egress then .ok () else .error .readers) ∧
      (m.tryUpgrade.2 = .ok () → l.Alike m.tryUpgrade.1) := by
  rw [downgrade_eq] at h
  split at h
  · next hflag =>
      cases h
      have hsame : l.ingress + 1 = l.egress + 1 ↔ l.ingress = l.egress := by
        grind
      simp only [tryUpgrade_eq, hsame]
      by_cases hbarred : 0 < l.barrier
      · simp [hbarred]
      · by_cases hnone : l.ingress = l.egress
        · simp only [hbarred, hnone, if_true, if_false, Bool.false_eq_true]
          refine ⟨trivial, fun _ => ⟨?_, rfl, hflag.symm⟩⟩
          simp only [registered, hnone]
          grind
        · simp [hbarred, hnone]
  · cases h

end Lock

namespace Session

variable {s : Session} {key actor : Nat} {o : Object} {l : Lock}

/-- What an actor's attempts on an object come to whose lock shows the words `l`. -/
structure Decides (s : Session) (actor key : Nat) (o : Object) (l : Lock) : Prop where
  /-- A reader gets in unless the flag is taken, and then it is counted on both sides. -/
  read : s.take ⟨actor, key, .instant (.tryAcquire .read)⟩ =
    if l.flag then
      s.leaving key o { l with ingress := l.ingress + 1, egress := l.egress + 1 } (.busy .written)
    else s.leaving key o { l with ingress := l.ingress + 1 } .ok
  /-- A writer takes the flag or changes nothing. -/
  write : s.take ⟨actor, key, .instant (.tryAcquire .write)⟩ =
    if 0 < l.barrier then s.leaving key o l (.busy .barred)
    else if l.flag then s.leaving key o l (.busy .written)
    else if l.ingress = l.egress then s.leaving key o { l with flag := true } .ok
    else s.leaving key o l (.busy .readers)
  /-- A reader takes the flag and departs, or it is counted on both sides once more, or
  it changes nothing. -/
  upgrade : s.take ⟨actor, key, .instant .tryUpgrade⟩ =
    if 0 < l.barrier then s.leaving key o l (.busy .barred)
    else if l.flag then s.leaving key o l (.busy .written)
    else if l.ingress = l.egress + 1 then
      s.leaving key o { l with egress := l.egress + 1, flag := true } .ok
    else
      s.leaving key o { l with ingress := l.ingress + 1, egress := l.egress + 1 } (.busy .readers)
  /-- Whatever is refused, the lock is as it was to everybody. -/
  spared : ∀ what why, (s.step ⟨actor, key, .instant what⟩).2.reply = .busy why →
    ∃ m, (s.step ⟨actor, key, .instant what⟩).1 = s.withObject key (o.withLock m) ∧ l.Alike m
  /-- An upgrade that is granted leaves no reader, and a downgrade takes it back. -/
  upgraded : (s.step ⟨actor, key, .instant .tryUpgrade⟩).2.reply = .ok →
    let s' := (s.step ⟨actor, key, .instant .tryUpgrade⟩).1
    (∃ m, s'.lock? key = some m ∧ m.registered = 0 ∧ m.flag = true) ∧
      (s'.step ⟨actor, key, .instant .downgrade⟩).2.reply = .ok ∧
      ∃ n, (s'.step ⟨actor, key, .instant .downgrade⟩).1.lock? key = some n ∧ l.Alike n
  /-- A downgrade is taken back by an upgrade if the barrier is down and there was no
  reader before. -/
  downgraded : (s.step ⟨actor, key, .instant .downgrade⟩).2.reply = .ok →
    let s' := (s.step ⟨actor, key, .instant .downgrade⟩).1
    (s'.step ⟨actor, key, .instant .tryUpgrade⟩).2.reply =
        (if 0 < l.barrier then .busy .barred
          else if l.ingress = l.egress then .ok else .busy .readers) ∧
      ((s'.step ⟨actor, key, .instant .tryUpgrade⟩).2.reply = .ok →
        ∃ n, (s'.step ⟨actor, key, .instant .tryUpgrade⟩).1.lock? key = some n ∧ l.Alike n)

/-- A step on the lock is answered as its words decide, and leaves the words as decided. -/
theorem step_instant (what : Instant) (hfree : s.stopped.get? actor = none)
    (ho : s.objects.get? key = some o) (hl : o.lock? = some l) :
    (s.step ⟨actor, key, .instant what⟩).1 = s.withObject key (o.withLock (what.run l).1) ∧
      (s.step ⟨actor, key, .instant what⟩).2.reply = (what.run l).2 := by
  rw [step, take_instant what hfree ho hl]
  exact ⟨rfl, rfl⟩

/-- Of two steps on a lock, the second finds the words that the first has left. -/
theorem step_instant_step (first second : Instant) (hfree : s.stopped.get? actor = none)
    (ho : s.objects.get? key = some o) (hl : o.lock? = some l) :
    let s' := (s.step ⟨actor, key, .instant first⟩).1
    s'.lock? key = some (first.run l).1 ∧
      (s'.step ⟨actor, key, .instant second⟩).2.reply = (second.run (first.run l).1).2 ∧
      (s'.step ⟨actor, key, .instant second⟩).1.lock? key =
        some (second.run (first.run l).1).1 := by
  intro s'
  have hfirst : s' = s.withObject key (o.withLock (first.run l).1) :=
    (step_instant first hfree ho hl).1
  have ho' : s'.objects.get? key = some (o.withLock (first.run l).1) := by
    rw [hfirst]
    exact Registry.get?_insert_self _ _ _
  have hl' := Object.lock?_withLock_of hl (first.run l).1
  have hfree' : s'.stopped.get? actor = none := by
    rw [hfirst]
    exact hfree
  obtain ⟨hsecond, hreply⟩ := step_instant second hfree' ho' hl'
  refine ⟨lock?_eq ho' hl', hreply, ?_⟩
  rw [hsecond]
  exact lock?_eq (Registry.get?_insert_self _ _ _) (Object.lock?_withLock_of hl' _)

/-- In every state of a lock, and in every state of the script around it, the words
decide what the attempts of an actor that is not stopped come to. -/
theorem attempts_decided (hfree : s.stopped.get? actor = none)
    (ho : s.objects.get? key = some o) (hl : o.lock? = some l) :
    s.Decides actor key o l where
  read := by
    rw [take_instant _ hfree ho hl, Instant.run, Lock.tryAcquire, Lock.tryRead_eq]
    split_ifs <;> rfl
  write := by
    rw [take_instant _ hfree ho hl, Instant.run, Lock.tryAcquire, Lock.tryWrite_eq]
    split_ifs <;> rfl
  upgrade := by
    rw [take_instant _ hfree ho hl, Instant.run, Lock.tryUpgrade_eq]
    split_ifs <;> rfl
  spared := by
    intro what why hbusy
    obtain ⟨hstep, hreply⟩ := step_instant what hfree ho hl
    rw [hreply] at hbusy
    exact ⟨_, hstep, (Instant.run_busy hbusy).2⟩
  upgraded := by
    intro hok s'
    obtain ⟨hwords, hreply, hback⟩ := step_instant_step .tryUpgrade .downgrade hfree ho hl
    rw [(step_instant _ hfree ho hl).2] at hok
    obtain ⟨hnone, hflag, n, hdowngrade, halike⟩ :=
      Lock.tryUpgrade_downgrade (Prod.ext rfl (Reply.ofAttempt_eq_ok_iff.mp hok))
    refine ⟨⟨_, hwords, hnone, hflag⟩, ?_, n, ?_, halike⟩
    · rw [hreply]
      exact congrArg (fun outcome => Reply.ofCheck outcome.2) hdowngrade
    · rw [hback]
      exact congrArg (fun outcome => some outcome.1) hdowngrade
  downgraded := by
    intro hok s'
    obtain ⟨-, hreply, hback⟩ := step_instant_step .downgrade .tryUpgrade hfree ho hl
    rw [(step_instant _ hfree ho hl).2] at hok
    obtain ⟨hupgrade, halike⟩ :=
      Lock.downgrade_tryUpgrade (Prod.ext rfl (Reply.ofCheck_eq_ok_iff.mp hok))
    rw [hreply]
    refine ⟨?_, fun hgranted => ⟨_, hback, halike (Reply.ofAttempt_eq_ok_iff.mp hgranted)⟩⟩
    exact (congrArg Reply.ofAttempt hupgrade).trans (by split_ifs <;> rfl)

/-- A lock with one reader whose arrival has wrapped, and a barrier below zero. -/
def wrapped : Lock := ⟨0, 4294967295, -1, false⟩

/-- The reader's upgrade wraps the other counter, and a downgrade takes it back. -/
theorem attempts_decided_wrapped :
    let s := start (.bare wrapped)
    let s' := (s.step ⟨0, 0, .instant .tryUpgrade⟩).1
    s.take ⟨0, 0, .instant .tryUpgrade⟩ = s.leaving 0 (.bare wrapped) ⟨0, 0, -1, true⟩ .ok ∧
      (s'.step ⟨0, 0, .instant .downgrade⟩).2.reply = .ok ∧
      ∃ n, (s'.step ⟨0, 0, .instant .downgrade⟩).1.lock? 0 = some n ∧ wrapped.Alike n := by
  intro s s'
  have hdecides : s.Decides 0 0 (.bare wrapped) wrapped := attempts_decided rfl rfl rfl
  exact ⟨hdecides.upgrade.trans rfl, (hdecides.upgraded (by decide +kernel)).2⟩

end Session

end ReaderWriter
