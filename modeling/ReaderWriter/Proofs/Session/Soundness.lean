import ReaderWriter.Proofs.Session.Accounts

/-!
# Sound ledgers

A ledger is sound if the words of its lock are balanced against the holds and
against what the stopped calls have at stake. Which calls may be stopped on the
object is left open: on a bare lock they are in operations of the lock, on a
payload they may also be in accesses.

A permitted turn has one of three forms, and each of them keeps the ledger
sound. The barrier is the one word that could overflow, so a turn is granted
that the readers who have raised it stay few.
-/

namespace ReaderWriter

namespace Ledger

variable {key : Nat} {b : Ledger} {o : Object} {l : Lock} {t : Turn}

/-! ## The forms of a turn -/

/-- A permitted turn that concerns the lock is an operation that never waits,
one that may wait, or it resumes a call. -/
theorem Permits.cases (hp : b.Permits key t) (hc : b.session.Concerns key t) :
    (∃ actor what op, t = ⟨actor, key, .instant what⟩ ∧ b.session.stopped.get? actor = none ∧
        Operation.ofInstant? what = some op ∧ op.Allowed b.holds) ∨
      (∃ actor mode, t = ⟨actor, key, .waiting (.acquire mode)⟩ ∧
        b.session.stopped.get? actor = none) ∨
      ∃ actor number turns c, t = ⟨actor, number, .resume turns⟩ ∧
        b.session.stopped.get? actor = some c ∧ c.object = key := by
  have hstep := hp hc
  clear hp
  obtain ⟨actor, number, step⟩ := t
  cases step with
  | resume turns =>
      obtain ⟨c, hget, hobject⟩ := hc
      exact .inr (.inr ⟨actor, number, turns, c, rfl, hget, hobject⟩)
  | instant what =>
      obtain ⟨rfl, hfree⟩ := hc
      obtain hr | ⟨op, hop, hallowed⟩ := hstep
      · cases hr
      exact .inl ⟨actor, what, op, rfl, hfree, hop, hallowed⟩
  | waiting what =>
      obtain ⟨rfl, hfree⟩ := hc
      obtain hr | ⟨op, hop, -⟩ := hstep
      · cases hr
      cases what with
      | acquire mode => exact .inr (.inl ⟨actor, mode, rfl, hfree⟩)
      | awaitEmpty => cases hop
      | awaitLowered => cases hop
  | _ =>
      obtain hr | ⟨op, hop, -⟩ := hstep
      · cases hr
      · cases hop

theorem next_of_not_concerns (h : ¬ b.session.Concerns key t) :
    b.next key t = ⟨(b.session.step t).1, b.holds⟩ := by
  rw [next, Session.operation?, if_neg h]

variable {actor : Nat}

theorem next_instant {what : Instant} {op : Operation}
    (ho : b.session.objects.get? key = some o) (hl : o.lock? = some l)
    (hfree : b.session.stopped.get? actor = none) (hop : Operation.ofInstant? what = some op) :
    b.next key ⟨actor, key, .instant what⟩ =
        ⟨b.session.withObject key (o.withLock (what.run l).1), op.after (what.run l).2 b.holds⟩ ∧
      (b.session.step ⟨actor, key, .instant what⟩).2.reply = (what.run l).2 := by
  have htake : b.session.take ⟨actor, key, .instant what⟩ =
      (b.session.withObject key (o.withLock (what.run l).1), (what.run l).2, []) :=
    Session.take_instant what hfree ho hl
  have hoperation : b.session.operation? key ⟨actor, key, .instant what⟩ = some op := by
    rw [Session.operation?_of_free hfree rfl]
    exact hop
  constructor
  · rw [next, hoperation, Session.step, htake]
  · rw [Session.step, htake]

theorem next_acquire (mode : Mode)
    (ho : b.session.objects.get? key = some o) (hl : o.lock? = some l)
    (hfree : b.session.stopped.get? actor = none) :
    let u := b.session.settle actor key 1 (Call.strideOnLock o (LockCall.acquire none mode l))
    b.next key ⟨actor, key, .waiting (.acquire mode)⟩ =
        ⟨u.1, (Operation.acquire mode).after u.2.1 b.holds⟩ ∧
      (b.session.step ⟨actor, key, .waiting (.acquire mode)⟩).2.reply = u.2.1 := by
  intro u
  have htake : b.session.take ⟨actor, key, .waiting (.acquire mode)⟩ = u :=
    Session.take_waiting (.acquire mode) hfree ho hl
  have hoperation : b.session.operation? key ⟨actor, key, .waiting (.acquire mode)⟩ =
      some (.acquire mode) := by
    rw [Session.operation?_of_free hfree rfl]
    rfl
  constructor
  · rw [next, hoperation, Session.step, htake]
  · rw [Session.step, htake]

theorem next_resume (number : Nat) {turns : Nat} {c : Stopped} {went : Stride Object Call Ending}
    (ho : b.session.objects.get? c.object = some o)
    (hget : b.session.stopped.get? actor = some c)
    (hgo : Call.goOn (max turns 1) (.pauseAt o c.call) = some went) :
    let u := b.session.settle actor c.object (c.pauses + max turns 1) went
    b.next c.object ⟨actor, number, .resume turns⟩ =
        ⟨u.1, match Operation.ofCall? c.call with
          | some op => op.after u.2.1 b.holds
          | none => b.holds⟩ ∧
      (b.session.step ⟨actor, number, .resume turns⟩).2.reply = u.2.1 := by
  intro u
  have htake : b.session.take ⟨actor, number, .resume turns⟩ = u :=
    Session.take_goOn number ho hget hgo
  have hoperation := Session.operation?_resume hget number turns
  constructor
  · cases hcall : Operation.ofCall? c.call with
    | some op =>
        rw [hcall] at hoperation
        rw [next, hoperation, Session.step, htake]
    | none =>
        rw [hcall] at hoperation
        rw [next, hoperation, Session.step, htake]
  · rw [Session.step, htake]

/-! ## Soundness -/

/-- The words of the lock of object `key` are balanced, no guard stands for the
object, and all calls stopped on it satisfy `P`. -/
structure Sound (key : Nat) (P : Stopped → Prop) (b : Ledger) (o : Object) (l : Lock) : Prop
    extends b.session.Accords key P b.holds o l where
  unguarded : b.session.Unguarded key

/-- What a turn has granted, it has granted while the flag was down or nobody
was registered. -/
def Sheltered (b b' : Ledger) (m : Lock) : Prop :=
  m.flag = false ∨ m.isEmpty = true ∨
    (b'.holds.reads ≤ b.holds.reads ∧ b'.holds.writes ≤ b.holds.writes)

/-- No call is stopped on the lock. -/
def Quiet (key : Nat) (b : Ledger) : Prop :=
  ∀ actor c, b.session.stopped.get? actor = some c → c.object ≠ key

namespace Sound

variable {P : Stopped → Prop} {m : Lock} {b' : Ledger}

theorem of_fresh {s : Session} (h : s.Fresh key o) : Sound key P ⟨s, .none⟩ o .fresh where
  object := h.object
  lock := h.lock
  unguarded := h.unguarded
  calls actor c hget hc := absurd hc (h.unused actor c hget)
  balanced := by
    rw [Session.draining, Session.raised, Session.tally_eq_zero h.unused,
      Session.tally_eq_zero h.unused]
    exact Lock.fresh_balanced

theorem of_agrees {s : Session} (h : Sound key P b o l) (ha : b.session.Agrees key s) :
    Sound key P ⟨s, b.holds⟩ o l where
  toAccords := h.toAccords.of_agrees ha
  unguarded := ha.unguarded h.unguarded

/-- A turn that does not concern the lock keeps the ledger. -/
theorem pass (h : Sound key P b o l) (ht : ¬ b.session.Concerns key t) :
    Sound key P (b.next key t) o l := by
  rw [next_of_not_concerns ht]
  exact h.of_agrees (h.unguarded.take_agrees ht)

/-- A stride that makes no guard leaves the object without one. -/
theorem unguarded_settle (h : Sound key P b o l) (actor pauses : Nat)
    {u : Stride Object Call Ending}
    (hguard : ∀ name mode, u.progress ≠ .finished (.guard name mode)) :
    (b.session.settle actor key pauses u).1.Unguarded key := by
  intro name g hget
  rw [Session.settle_guards] at hget
  split at hget
  · next made mode hp => exact absurd hp (hguard made mode)
  · exact h.unguarded name g hget

/-- A stride that pauses adds the stake of its own call to those of the others. -/
theorem settle_paused (h : Sound key P b o l) (actor : Nat) {pauses : Nat}
    {went : Stride Object Call Ending} {call : Call} {holds : Holds}
    (hp : went.progress = .paused call) (hl : went.state.lock? = some m)
    (hcall : P ⟨key, pauses, call⟩)
    (hb : m.Balanced holds.reads
      (holds.writes +
        ((b.session.tallyOthers key actor fun c => c.call.isDraining) + call.isDraining.toNat))
      ((b.session.tallyOthers key actor fun c => c.call.hasRaised) + call.hasRaised.toNat)) :
    Sound key P ⟨(b.session.settle actor key pauses went).1, holds⟩ went.state m where
  toAccords := h.toAccords.settle_paused actor hp hl hcall hb
  unguarded := h.unguarded_settle actor pauses (by simp [hp])

/-- A stride that ends its call leaves the stakes of the others. -/
theorem settle_finished (h : Sound key P b o l) (actor pauses : Nat)
    {went : Stride Object Call Ending} {ending : Ending} {holds : Holds}
    (hf : went.progress = .finished ending) (hl : went.state.lock? = some m)
    (hguard : ∀ name mode, ending ≠ .guard name mode)
    (hb : m.Balanced holds.reads
      (holds.writes + b.session.tallyOthers key actor fun c => c.call.isDraining)
      (b.session.tallyOthers key actor fun c => c.call.hasRaised)) :
    Sound key P ⟨(b.session.settle actor key pauses went).1, holds⟩ went.state m where
  toAccords := h.toAccords.settle_finished actor pauses hf hl hb
  unguarded := by
    apply h.unguarded_settle actor pauses
    intro name mode hf'
    rw [hf] at hf'
    exact hguard name mode (Progress.finished.inj hf')

/-- The end of a stride of an acquisition. -/
theorem settle_acquire (h : Sound key P b o l) (hP : ∀ c : Stopped, c.InOperation → P c)
    {pauses : Nat} {mode : Mode} {went : Stride Object Call Ending}
    (hm : went.Meets
      (Call.Pending o b.holds none mode
        (b.session.tallyOthers key actor fun c => c.call.isDraining)
        (b.session.tallyOthers key actor fun c => c.call.hasRaised) pauses)
      (Call.Granted o b.holds none mode
        (b.session.tallyOthers key actor fun c => c.call.isDraining)
        (b.session.tallyOthers key actor fun c => c.call.hasRaised))) :
    let u := b.session.settle actor key pauses went
    ∃ m, Sound key P ⟨u.1, (Operation.acquire mode).after u.2.1 b.holds⟩ (o.withLock m) m ∧
      Sheltered b ⟨u.1, (Operation.acquire mode).after u.2.1 b.holds⟩ m ∧
      ∀ breach, u.2.1 ≠ .violated breach := by
  intro u
  obtain ⟨call, hp, m, hstate, hstands, hb⟩ | ⟨ending, hf, m, hstate, rfl, hshelter, hb⟩ := hm.cases
  · have hreply : u.2.1 = .paused pauses := by rw [Session.settle_reply, hp]
    rw [hreply, Operation.after_of_ne]
    · refine ⟨m, ?_, .inr (.inr ⟨Nat.le_refl _, Nat.le_refl _⟩), by simp⟩
      rw [← hstate]
      apply h.settle_paused actor hp
      · rw [hstate]
        exact Object.lock?_withLock_of h.lock m
      · exact hP _ ⟨mode, hstands⟩
      · exact hb
    · simp
  · have hreply : u.2.1 = .ok := by rw [Session.settle_reply, hf]; rfl
    rw [hreply, Operation.after_ok]
    refine ⟨m, ?_, hshelter.imp_right .inl, by simp⟩
    rw [← hstate]
    apply h.settle_finished actor pauses hf
    · rw [hstate]
      exact Object.lock?_withLock_of h.lock m
    · simp [Ending.ofHold]
    · exact hb

/-- An allowed operation that never waits. -/
theorem instant {what : Instant} {op : Operation} (h : Sound key P b o l)
    (hfree : b.session.stopped.get? actor = none) (hop : Operation.ofInstant? what = some op)
    (ha : op.Allowed b.holds) :
    let t : Turn := ⟨actor, key, .instant what⟩
    ∃ m, Sound key P (b.next key t) (o.withLock m) m ∧ Sheltered b (b.next key t) m ∧
      ∀ breach, (b.session.step t).2.reply ≠ .violated breach := by
  intro t
  obtain ⟨hnext, hreply⟩ := next_instant h.object h.lock hfree hop
  rw [hnext, hreply]
  obtain ⟨kept, hb, hs⟩ := Operation.run_answered hop ha h.balanced
  refine ⟨(what.run l).1, ⟨⟨?_, Object.lock?_withLock_of h.lock _, h.calls, hb⟩, h.unguarded⟩,
    hs, kept⟩
  exact Registry.get?_insert_self _ _ _

/-- The beginning of an acquisition that may wait. -/
theorem acquire (h : Sound key P b o l) (mode : Mode) (hP : ∀ c : Stopped, c.InOperation → P c)
    (hfree : b.session.stopped.get? actor = none) :
    let t : Turn := ⟨actor, key, .waiting (.acquire mode)⟩
    ∃ m, Sound key P (b.next key t) (o.withLock m) m ∧ Sheltered b (b.next key t) m ∧
      ∀ breach, (b.session.step t).2.reply ≠ .violated breach := by
  intro t
  obtain ⟨hnext, hreply⟩ := next_acquire mode h.object h.lock hfree
  rw [hnext, hreply]
  exact h.settle_acquire hP (Call.acquire_meets mode (h.balanced_of_free hfree))

/-- The strides of a resumed acquisition. A reader whose patience ends needs
room on the barrier. -/
theorem resume_meets {number turns : Nat} {c : Stopped} {mode : Mode} (h : Sound key P b o l)
    (hP : ∀ c : Stopped, c.InOperation → P c)
    (hget : b.session.stopped.get? actor = some c) (hc : c.object = key)
    (hop : c.call.StandsAt none mode c.pauses)
    (now : c.isLosingPatience = true → b.session.raised key + 1 < 2 ^ 31)
    (later : let s := (b.session.step ⟨actor, number, .resume turns⟩).1
      (∀ a c, s.stopped.get? a = some c → c.object = key → P c) → s.raised key < 2 ^ 31) :
    ∃ went, Call.goOn (max turns 1) (.pauseAt o c.call) = some went ∧
      went.Meets
        (Call.Pending o b.holds none mode
          (b.session.tallyOthers key actor fun c => c.call.isDraining)
          (b.session.tallyOthers key actor fun c => c.call.hasRaised) (c.pauses + max turns 1))
        (Call.Granted o b.holds none mode
          (b.session.tallyOthers key actor fun c => c.call.isDraining)
          (b.session.tallyOthers key actor fun c => c.call.hasRaised)) := by
  apply h.toAccords.resume_meets hget hc hop now
  intro went call hgo hp hstands
  subst hc
  rw [Session.step, Session.take_goOn number h.object hget hgo] at later
  apply later
  apply h.calls_settle actor
  intro call' hp'
  rw [hp] at hp'
  cases hp'
  exact hP _ ⟨mode, hstands⟩

/-- The resumption of an acquisition. -/
theorem resume {c : Stopped} (h : Sound key P b o l) (number turns : Nat)
    (hP : ∀ c : Stopped, c.InOperation → P c)
    (hget : b.session.stopped.get? actor = some c) (hc : c.object = key) (hop : c.InOperation)
    (now : c.isLosingPatience = true → b.session.raised key + 1 < 2 ^ 31)
    (later : let s := (b.session.step ⟨actor, number, .resume turns⟩).1
      (∀ a c, s.stopped.get? a = some c → c.object = key → P c) → s.raised key < 2 ^ 31) :
    let t : Turn := ⟨actor, number, .resume turns⟩
    ∃ m, Sound key P (b.next key t) (o.withLock m) m ∧ Sheltered b (b.next key t) m ∧
      ∀ breach, (b.session.step t).2.reply ≠ .violated breach := by
  intro t
  obtain ⟨mode, hop⟩ := hop
  obtain ⟨went, hgo, hm⟩ := h.resume_meets hP hget hc hop now later
  subst hc
  obtain ⟨hnext, hreply⟩ := next_resume number h.object hget hgo
  rw [hnext, hreply, hop.ofCall?_eq]
  exact h.settle_acquire hP hm

/-- Exclusion is kept, as long as the readers can be counted in a word. -/
theorem exclusive (h : Sound key P b' o m) (hs : Sheltered b b' m) (hx : b.holds.Exclusive)
    (few : b'.holds.reads < 2 ^ 32) : b'.holds.Exclusive :=
  h.balanced.exclusive hs hx few

theorem raised_eq_starved (h : Sound key Stopped.InOperation b o l) :
    b.session.raised key = b.session.starved key :=
  h.toAccords.raised_eq_starved fun _ => Stopped.InOperation.isStarved_eq

/-- A reader whose patience ends is counted among the starved at once. -/
theorem room_now {number turns : Nat} {c : Stopped} (h : Sound key Stopped.InOperation b o l)
    (hget : b.session.stopped.get? actor = some c) (hc : c.object = key)
    (few : b.session.peak key Stopped.isStarved ⟨actor, number, .resume turns⟩ < 2 ^ 31)
    (hlosing : c.isLosingPatience = true) : b.session.raised key + 1 < 2 ^ 31 :=
  h.toAccords.room_now (fun _ => Stopped.InOperation.isStarved_eq) hget hc few hlosing

theorem room_later (few : b.session.peak key Stopped.isStarved t < 2 ^ 31)
    (hcalls : ∀ a c, (b.session.step t).1.stopped.get? a = some c → c.object = key →
      c.InOperation) : (b.session.step t).1.raised key < 2 ^ 31 :=
  Session.raised_lt_of_peak few fun a c hget hc => (hcalls a c hget hc).isStarved_eq

/-- Every permitted turn keeps a ledger sound whose stopped calls are all in
operations of the lock. No contract is broken, and grants are sheltered. -/
theorem next (h : Sound key Stopped.InOperation b o l) (hp : b.Permits key t)
    (few : b.session.peak key Stopped.isStarved t < 2 ^ 31) :
    ∃ m, Sound key Stopped.InOperation (b.next key t) (o.withLock m) m ∧
      Sheltered b (b.next key t) m ∧
      (b.session.Concerns key t → ∀ breach, (b.session.step t).2.reply ≠ .violated breach) := by
  by_cases hc : b.session.Concerns key t
  · obtain ⟨actor, what, op, rfl, hfree, hop, ha⟩ | ⟨actor, mode, rfl, hfree⟩ |
      ⟨actor, number, turns, c, rfl, hget, hobject⟩ := hp.cases hc
    · exact (h.instant hfree hop ha).imp fun m ⟨hm, hs, kept⟩ => ⟨hm, hs, fun _ => kept⟩
    · exact (h.acquire mode (fun _ => id) hfree).imp fun m ⟨hm, hs, kept⟩ => ⟨hm, hs, fun _ => kept⟩
    · have hop := h.calls actor c hget hobject
      exact (h.resume number turns (fun _ => id) hget hobject hop (h.room_now hget hobject few)
        (room_later few)).imp fun m ⟨hm, hs, kept⟩ => ⟨hm, hs, fun _ => kept⟩
  · refine ⟨l, ?_, ?_, fun hyes => absurd hyes hc⟩
    · rw [Object.withLock_self h.lock]
      exact h.pass hc
    · rw [next_of_not_concerns hc]
      exact .inr (.inr ⟨Nat.le_refl _, Nat.le_refl _⟩)

end Sound

/-! ## Whole scripts -/

/-- A permitted turn that the barrier has room for. -/
def Admits (key : Nat) (b : Ledger) (t : Turn) : Prop :=
  b.Permits key t ∧ b.session.peak key Stopped.isStarved t < 2 ^ 31

/-- An admitted turn keeps a sound ledger sound, and breaks no contract of the lock. -/
theorem sound_next (h : ∃ l, Sound key Stopped.InOperation b (o.withLock l) l)
    (admitted : Admits key b t) :
    (∃ l, Sound key Stopped.InOperation (b.next key t) (o.withLock l) l) ∧
      (b.session.Concerns key t → ∀ breach, (b.session.step t).2.reply ≠ .violated breach) := by
  obtain ⟨l, hb⟩ := h
  obtain ⟨m, hm, -, kept⟩ := hb.next admitted.1 admitted.2
  rw [Object.withLock_withLock] at hm
  exact ⟨⟨m, hm⟩, kept⟩

/-- Admitted turns keep a sound ledger sound, and none of them breaks a contract
of the lock. -/
theorem sound_of_admitted {script : List Turn}
    (h : ∃ l, Sound key Stopped.InOperation b (o.withLock l) l)
    (admitted : EveryTurn key (Admits key) b script) :
    Throughout key (fun b => ∃ l, Sound key Stopped.InOperation b (o.withLock l) l) b script ∧
      EveryTurn key (fun b t => b.session.Concerns key t →
        ∀ breach, (b.session.step t).2.reply ≠ .violated breach) b script :=
  admitted.keeps h fun _ _ => sound_next

theorem sound_fresh {s : Session} (fresh : s.Fresh key o) :
    ∃ l, Sound key Stopped.InOperation ⟨s, .none⟩ (o.withLock l) l := by
  refine ⟨.fresh, ?_⟩
  rw [Object.withLock_self fresh.lock]
  exact .of_fresh fresh

/-- A disciplined script on a fresh lock keeps its ledger sound, and none of
its turns on the lock breaks a contract. -/
theorem sound_throughout {s : Session} {script : List Turn} (fresh : s.Fresh key o)
    (disciplined : Disciplined key ⟨s, .none⟩ script)
    (few : FewStarved key ⟨s, .none⟩ script) :
    Throughout key (fun b => ∃ l, Sound key Stopped.InOperation b (o.withLock l) l) ⟨s, .none⟩
        script ∧
      EveryTurn key (fun b t => b.session.Concerns key t →
        ∀ breach, (b.session.step t).2.reply ≠ .violated breach) ⟨s, .none⟩ script :=
  sound_of_admitted (sound_fresh fresh) (disciplined.and few)

/-- The holds are exclusive as well, as long as the readers can be counted. -/
theorem exclusive_throughout {s : Session} {script : List Turn} (fresh : s.Fresh key o)
    (disciplined : Disciplined key ⟨s, .none⟩ script)
    (fewReads : FewReads key ⟨s, .none⟩ script)
    (few : FewStarved key ⟨s, .none⟩ script) :
    Throughout key (fun b => b.holds.Exclusive ∧
      ∃ l, Sound key Stopped.InOperation b (o.withLock l) l) ⟨s, .none⟩ script := by
  have admitted : EveryTurn key (Admits key) ⟨s, .none⟩ script := disciplined.and few
  have hstart := sound_fresh fresh
  apply (admitted.and fewReads.everyTurn).invariant ⟨Holds.none_exclusive, hstart⟩
  rintro b t ⟨hx, l, hb⟩ ⟨⟨hp, hroom⟩, -, hcount⟩
  obtain ⟨m, hm, hsheltered, -⟩ := hb.next hp hroom
  rw [Object.withLock_withLock] at hm
  exact ⟨hm.exclusive hsheltered hx hcount, m, hm⟩

end Ledger

end ReaderWriter
