import ReaderWriter.Proofs.Session.Overtaking

/-!
# Turns while the flag is taken

While a writer owns the flag nobody else gets in. An attempt fails, a call that
begins stops, and a stopped call stays stopped, unless it is the owner's own and
no reader is left. Readers that are in may leave, so the number of readers can
only go down.

These facts are about single turns; the flag stays taken in each of them but
those that give it back. What they add up to is the matter of
`ReaderWriter.Proofs.Drain`.
-/

namespace ReaderWriter

/-- An operation that never waits and does not give the flag back leaves it
taken, and grants nothing. -/
theorem Instant.run_of_flag {what : Instant} {op : Operation} {l : Lock}
    (hop : Operation.ofInstant? what = some op) (hf : l.flag = true)
    (hunlock : op ≠ .unlock .write) (hdowngrade : op ≠ .downgrade) :
    (what.run l).1.flag = true ∧ ((what.run l).2 = .ok → op = .unlock .read) ∧
      (op = .tryAcquire .read → (what.run l).2 = .busy .written) := by
  cases what with
  | tryAcquire mode =>
      obtain rfl := Option.some.inj hop
      cases mode with
      | read =>
          have hrun : Instant.run l (.tryAcquire .read) = (l.arrive.depart, .busy .written) := by
            rw [run, Lock.tryAcquire, Lock.tryRead, Lock.arrive_flag, if_pos hf]
            rfl
          rw [hrun]
          exact ⟨hf, by simp, fun _ => rfl⟩
      | write =>
          obtain ⟨why, hrun⟩ : ∃ why, Instant.run l (.tryAcquire .write) = (l, .busy why) := by
            rw [run, Lock.tryAcquire, Lock.tryWrite, Lock.claim_of_flag hf]
            split
            · exact ⟨_, rfl⟩
            · exact ⟨_, rfl⟩
          rw [hrun]
          exact ⟨hf, by simp, by simp⟩
  | unlock mode =>
      obtain rfl := Option.some.inj hop
      cases mode with
      | read => exact ⟨hf, fun _ => rfl, by simp⟩
      | write => exact absurd rfl hunlock
  | tryUpgrade =>
      obtain rfl := Option.some.inj hop
      obtain ⟨why, hrun⟩ : ∃ why, Instant.run l .tryUpgrade = (l, .busy why) := by
        rw [run, Lock.tryUpgrade, Lock.claim_of_flag hf]
        split
        · exact ⟨_, rfl⟩
        · exact ⟨_, rfl⟩
      rw [hrun]
      exact ⟨hf, by simp, by simp⟩
  | downgrade =>
      obtain rfl := Option.some.inj hop
      exact absurd rfl hdowngrade
  | _ => cases hop

namespace Call

variable {o : Object} {l : Lock} {p : Nat} {mode : Mode}

/-- The call stops without the flag, and the flag is taken by somebody else. -/
def KeptOut (o o' : Object) (call : Call) : Prop :=
  call.isDraining = false ∧ ∃ m, o' = o.withLock m ∧ m.flag = true

/-- A writer that does not own the flag stops while it is taken. -/
theorem strideOnLock_write_of_flag (place : WriteWait) (hf : l.flag = true)
    (hp : place.isDrain = false) :
    (strideOnLock o (LockCall.resume l (.write none place))).Meets (KeptOut o)
      fun _ _ => False := by
  have hwait : (place.resume l).Meets (fun m place' => m = l ∧ place'.isDrain = false)
      fun _ _ => False := by
    cases place with
    | barrier =>
        rw [WriteWait.resume, Lock.write, Lock.writeFlag_of_flag hf]
        split
        · exact ⟨rfl, rfl⟩
        · exact ⟨rfl, rfl⟩
    | flag =>
        rw [WriteWait.resume, Lock.writeFlag_of_flag hf]
        exact ⟨rfl, rfl⟩
    | drain => cases hp
  rw [meets_strideOnLock, LockCall.resume, Stride.Meets.relabel_iff]
  apply hwait.mono
  · rintro m place' ⟨rfl, hplace⟩
    exact ⟨hplace, m, rfl, hf⟩
  · exact fun _ _ => id

/-- Whoever begins while the flag is taken has to stop. -/
theorem acquire_of_flag (mode : Mode) (hf : l.flag = true) :
    (strideOnLock o (LockCall.acquire none mode l)).Meets (KeptOut o) fun _ _ => False := by
  cases mode with
  | read =>
      rw [acquire_read_of_flag hf]
      exact ⟨rfl, _, rfl, hf⟩
  | write => exact strideOnLock_write_of_flag .barrier hf rfl

/-- Whoever is stopped without the flag stays so while it is taken. -/
theorem goOn_of_flag {call : Call} (turns : Nat) (hl : o.lock? = some l) (hf : l.flag = true)
    (hop : call.StandsAt none mode p) (hd : call.isDraining = false) :
    ∃ went, goOn (turns + 1) (.pauseAt o call) = some went ∧
      went.Meets (KeptOut o) fun _ _ => False := by
  cases mode with
  | read =>
      obtain ⟨hp, rfl⟩ := hop
      refine ⟨_, goOn_read_of_flag none (turns + 1) hl hf hp, rfl, _, rfl, ?_⟩
      rw [Deed.run_flag, hf]
  | write =>
      obtain ⟨place, rfl⟩ := hop
      exact ⟨_, goOn_write turns hl, strideOnLock_write_of_flag place hf hd⟩

/-- The owner of the flag gets in if no reader is left, and else it waits on. -/
theorem goOn_drains {call : Call} (turns : Nat) (hl : o.lock? = some l)
    (hop : call.StandsAt none mode p) (hd : call.isDraining = true) :
    ∃ went, goOn (turns + 1) (.pauseAt o call) = some went ∧ went.state = o ∧
      went.progress = if l.isEmpty then .finished .plain else .paused call := by
  cases mode with
  | read =>
      obtain ⟨-, rfl⟩ := hop
      cases hd
  | write =>
      obtain ⟨place, rfl⟩ := hop
      cases place with
      | drain =>
          refine ⟨_, goOn_write turns hl, ?_⟩
          rw [LockCall.resume, WriteWait.resume, Lock.writeDrain]
          split
          · exact ⟨Object.withLock_self hl, rfl⟩
          · exact ⟨Object.withLock_self hl, rfl⟩
      | barrier => cases hd
      | flag => cases hd

end Call

namespace Ledger

/-- The turn gives back the flag, by a release or a downgrade. -/
def Yields (key : Nat) (b : Ledger) (t : Turn) : Prop :=
  b.session.operation? key t = some (.unlock .write) ∨
    b.session.operation? key t = some .downgrade

instance (key : Nat) (b : Ledger) (t : Turn) : Decidable (b.Yields key t) :=
  inferInstanceAs (Decidable (_ ∨ _))

/-- What a taken flag keeps out in a turn. -/
structure KeepsOut (key : Nat) (b : Ledger) (t : Turn) : Prop where
  flag : (b.next key t).session.flag key = true
  /-- Nobody else comes to own it. -/
  drains : ∀ a, (b.next key t).session.Stands key a Stopped.drains →
    b.session.Stands key a Stopped.drains
  /-- Nothing succeeds but the release of a read lock and the owner's own call. -/
  granted : ∀ op, b.session.operation? key t = some op → (b.session.step t).2.reply = .ok →
    op = .unlock .read ∨ op = .acquire .write ∧ b.session.Stands key t.actor Stopped.drains
  attempt : b.session.operation? key t = some (.tryAcquire .read) →
    (b.session.step t).2.reply = .busy .written
  /-- The owner's own call returns when no reader is left. -/
  returns : ∀ turns, t.step = .resume turns → b.session.Stands key t.actor Stopped.drains →
    ((b.session.step t).2.reply = .ok ↔ b.holds.reads = 0)

namespace KeepsOut

variable {key actor pauses : Nat} {b : Ledger} {o : Object} {l : Lock} {t : Turn}
variable {P : Stopped → Prop} {went : Stride Object Call Ending}

/-- A turn that does not concern the lock leaves everything as it is. -/
theorem pass (h : Sound key P b o l) (hf : l.flag = true) (hc : ¬ b.session.Concerns key t) :
    KeepsOut key b t := by
  have hagrees : b.session.Agrees key (b.next key t).session :=
    h.unguarded.take_agrees hc
  have hnone : b.session.operation? key t = none := by
    rw [Session.operation?, if_neg hc]
  refine ⟨?_, ?_, ?_, ?_, ?_⟩
  · rw [Session.flag, hagrees.object, ← Session.flag, Session.flag_eq h.object h.lock, hf]
  · intro a ha
    exact hagrees.stands_iff.mp ha
  · intro op hop
    rw [hnone] at hop
    cases hop
  · intro hop
    rw [hnone] at hop
    cases hop
  · rintro turns hstep ⟨c, hget, hobject, -⟩
    refine absurd ?_ hc
    rw [Session.Concerns, hstep]
    exact ⟨c, hget, hobject⟩

theorem instant {what : Instant} {op : Operation} (h : Sound key P b o l) (hf : l.flag = true)
    (hfree : b.session.stopped.get? actor = none) (hop : Operation.ofInstant? what = some op)
    (hyields : ¬ b.Yields key ⟨actor, key, .instant what⟩) :
    KeepsOut key b ⟨actor, key, .instant what⟩ := by
  have hoperation : b.session.operation? key ⟨actor, key, .instant what⟩ = some op := by
    rw [Session.operation?_of_free hfree rfl]
    exact hop
  rw [Yields, hoperation, not_or] at hyields
  obtain ⟨hflag, hok, hbusy⟩ := Instant.run_of_flag hop hf
    (fun heq => hyields.1 (congrArg some heq))
    (fun heq => hyields.2 (congrArg some heq))
  obtain ⟨hnext, hreply⟩ := next_instant h.object h.lock hfree hop
  refine ⟨?_, ?_, ?_, ?_, ?_⟩
  · rw [← hflag, hnext]
    exact Session.flag_eq (Registry.get?_insert_self _ _ _) (Object.lock?_withLock_of h.lock _)
  · intro a ha
    rw [hnext] at ha
    exact ha
  · intro op' hop' hgranted
    rw [hoperation] at hop'
    cases hop'
    rw [hreply] at hgranted
    exact .inl (hok hgranted)
  · intro hop'
    rw [hoperation] at hop'
    cases hop'
    rw [hreply]
    exact hbusy rfl
  · intro turns hstep
    cases hstep

/-- The end of a stride that keeps its call out. -/
theorem of_settle (hl : o.lock? = some l)
    (hsession : (b.next key t).session = (b.session.settle t.actor key pauses went).1)
    (hreply : (b.session.step t).2.reply = (b.session.settle t.actor key pauses went).2.1)
    (hm : went.Meets (Call.KeptOut o) fun _ _ => False)
    (hcalm : ¬ b.session.Stands key t.actor Stopped.drains)
    (hop : b.session.operation? key t ≠ some (.tryAcquire .read)) : KeepsOut key b t := by
  obtain ⟨call, hp, hidle, m, hstate, hflag⟩ | ⟨ending, -, hno⟩ := hm.cases
  · have hpaused : (b.session.step t).2.reply = .paused pauses := by
      rw [hreply, Session.settle_reply, hp]
    refine ⟨?_, ?_, ?_, ?_, ?_⟩
    · rw [← hflag, hsession]
      apply Session.flag_eq
      · rw [Session.settle_objects, Registry.get?_insert_self, hstate]
      · exact Object.lock?_withLock_of hl m
    · intro a ha
      rw [hsession] at ha
      by_cases hactor : a = t.actor
      · subst hactor
        obtain ⟨call', hp', hdrains⟩ := (Session.stands_settle_self went).mp ha
        rw [hp] at hp'
        cases hp'
        rw [Stopped.drains, hidle] at hdrains
        cases hdrains
      · exact (Session.stands_settle_of_ne hactor went).mp ha
    · intro op _ hok
      rw [hpaused] at hok
      cases hok
    · intro hop'
      exact absurd hop' hop
    · intro turns _ hdrains
      exact absurd hdrains hcalm
  · exact hno.elim

/-- The owner's call goes on. -/
theorem of_drains {c : Stopped} {mode : Mode} (number turns : Nat) (h : Sound key P b o l)
    (hf : l.flag = true) (hget : b.session.stopped.get? actor = some c) (hc : c.object = key)
    (hop : c.call.StandsAt none mode c.pauses) (hd : c.call.isDraining = true)
    (few : b.holds.reads < 2 ^ 32) : KeepsOut key b ⟨actor, number, .resume turns⟩ := by
  subst hc
  obtain ⟨n, hn⟩ := Call.exists_turns turns
  obtain ⟨went, hgo, hstate, hprogress⟩ := Call.goOn_drains n h.lock hop hd
  rw [← hn] at hgo
  obtain ⟨hnext, hreply⟩ := next_resume number h.object hget hgo
  have hsession := congrArg Ledger.session hnext
  have hstands : b.session.Stands c.object actor Stopped.drains := ⟨c, hget, rfl, hd⟩
  have hoperation := Session.operation?_resume hget number turns
  obtain ⟨place, hcall⟩ : ∃ place, c.call = .onLock (.write none place) := by
    cases mode with
    | read =>
        rw [hop.2] at hd
        cases hd
    | write => exact hop
  rw [hcall, Operation.ofCall?] at hoperation
  have hempty : l.isEmpty = true ↔ b.holds.reads = 0 := by
    rw [h.balanced.isEmpty_iff, Nat.mod_eq_of_lt few]
  have hok : (b.session.step ⟨actor, number, .resume turns⟩).2.reply = .ok ↔ l.isEmpty = true := by
    rw [hreply, Session.settle_reply, hprogress]
    cases l.isEmpty with
    | true => exact iff_of_true rfl rfl
    | false => exact iff_of_false (by simp) Bool.false_ne_true
  refine ⟨?_, ?_, ?_, ?_, ?_⟩
  · rw [← hf, hsession]
    apply Session.flag_eq _ h.lock
    rw [Session.settle_objects, Registry.get?_insert_self, hstate]
  · intro a ha
    by_cases hactor : a = actor
    · rw [hactor]
      exact hstands
    · rw [hsession] at ha
      exact (Session.stands_settle_of_ne hactor went).mp ha
  · intro op hop' _
    rw [hoperation] at hop'
    cases hop'
    exact .inr ⟨rfl, hstands⟩
  · intro hop'
    rw [hoperation] at hop'
    cases hop'
  · intro turns' _ _
    rw [hok, hempty]

end KeepsOut

/-- While the flag is taken, every permitted turn that does not give it back
keeps the others out. -/
theorem Sound.keepsOut {key : Nat} {b : Ledger} {o : Object} {l : Lock} {t : Turn}
    (h : Sound key Stopped.InOperation b o l) (hf : l.flag = true) (hp : b.Permits key t)
    (hyields : ¬ b.Yields key t) (few : b.holds.reads < 2 ^ 32) : KeepsOut key b t := by
  by_cases hc : b.session.Concerns key t
  · obtain ⟨actor, what, op, rfl, hfree, hop, -⟩ | ⟨actor, mode, rfl, hfree⟩ |
      ⟨actor, number, turns, c, rfl, hget, hobject⟩ := hp.cases hc
    · exact .instant h hf hfree hop hyields
    · obtain ⟨hnext, hreply⟩ := next_acquire mode h.object h.lock hfree
      apply KeepsOut.of_settle h.lock (congrArg Ledger.session hnext) hreply
        (Call.acquire_of_flag mode hf) (Session.not_stands_of_free hfree)
      rw [Session.operation?_of_free hfree rfl]
      simp [Operation.ofStep?]
    · obtain ⟨mode, hop⟩ := h.calls actor c hget hobject
      cases hd : c.call.isDraining with
      | true => exact .of_drains number turns h hf hget hobject hop hd few
      | false =>
          subst hobject
          obtain ⟨n, hn⟩ := Call.exists_turns turns
          obtain ⟨went, hgo, hm⟩ := Call.goOn_of_flag n h.lock hf hop hd
          rw [← hn] at hgo
          obtain ⟨hnext, hreply⟩ := next_resume number h.object hget hgo
          apply KeepsOut.of_settle h.lock (congrArg Ledger.session hnext) hreply hm
          · rw [Session.stands_iff hget rfl]
            exact ne_true_of_eq_false hd
          · rw [Session.operation?_resume hget, hop.ofCall?_eq]
            simp
  · exact .pass h hf hc

end Ledger

end ReaderWriter
