import ReaderWriter.Proofs.Session.Seclusion

/-!
# A drain only shrinks

From the turn in which a writer takes the flag to the one that gives it back,
nobody else gets in. The readers that were in may leave and no reader comes, so
their number only goes down. If the writer had to stop for them, its call returns
as soon as it is resumed after the last of them has left, and no sooner.

Readers that spin, raise the barrier, begin or try an upgrade in the meantime
make no difference.
-/

namespace ReaderWriter

namespace Session

/-- The readers that are registered with the lock of an object. -/
def readers (s : Session) (key : Nat) : Nat :=
  match s.lock? key with
  | some l => l.registered.toNat
  | none => 0

end Session

namespace Ledger

variable {key owner : Nat} {b : Ledger} {o : Object} {l : Lock} {t : Turn} {script : List Turn}

/-- The turn releases a read lock. -/
def releases (key : Nat) (b : Ledger) (t : Turn) : Bool :=
  b.session.operation? key t = some (.unlock .read) ∧ (b.session.step t).2.reply = .ok

/-- The read locks that a script releases. -/
def released (key : Nat) : Ledger → List Turn → Nat
  | _, [] => 0
  | b, t :: rest => (b.releases key t).toNat + released key (b.next key t) rest

/-- What a turn can do while the owner has the flag. -/
structure Secluded (key owner : Nat) (b : Ledger) (t : Turn) : Prop where
  readers : (b.next key t).session.readers key ≤ b.session.readers key
  /-- Nothing succeeds but a release and the call in which the owner drains the readers. -/
  granted : ∀ op, b.session.operation? key t = some op → (b.session.step t).2.reply = .ok →
    op = .unlock .read ∨
      op = .acquire .write ∧ t.actor = owner ∧ b.session.Stands key owner Stopped.drains
  attempt : b.session.operation? key t = some (.tryAcquire .read) →
    (b.session.step t).2.reply = .busy .written ∧
      (b.next key t).session.readers key = b.session.readers key

/-! ## One turn -/

/-- What a permitted turn asks for is allowed. -/
theorem Permits.allowed {op : Operation} (hp : b.Permits key t)
    (hop : b.session.operation? key t = some op) : op.Allowed b.holds := by
  have hc : b.session.Concerns key t := by
    by_contra hnot
    rw [Session.operation?, if_neg hnot] at hop
    cases hop
  obtain ⟨actor, what, op', rfl, hfree, hop', hallowed⟩ | ⟨actor, mode, rfl, hfree⟩ |
    ⟨actor, number, turns, c, rfl, hget, rfl⟩ := hp.cases hc
  · rw [Session.operation?_of_free hfree rfl, Operation.ofStep?, hop'] at hop
    cases hop
    exact hallowed
  · rw [Session.operation?_of_free hfree rfl] at hop
    cases hop
    trivial
  · rw [Session.operation?_resume hget] at hop
    obtain ⟨mode, rfl⟩ := Operation.ofCall?_eq_acquire hop
    trivial

/-- The readers that are registered are the read holds, as far as a word can count. -/
theorem Sound.readers_eq {P : Stopped → Prop} (h : Sound key P b o l)
    (few : b.holds.reads < 2 ^ 32) : b.session.readers key = b.holds.reads := by
  rw [Session.readers, Session.lock?_eq h.object h.lock]
  dsimp only
  rw [h.balanced.readers, UInt32.toNat_ofNat']
  exact Nat.mod_eq_of_lt few

/-- While the flag is taken, read holds are lost by releases and never gained. -/
theorem KeepsOut.reads_next (h : KeepsOut key b t) (hp : b.Permits key t) :
    (b.next key t).holds.reads + (b.releases key t).toNat = b.holds.reads := by
  rw [next, releases]
  cases hop : b.session.operation? key t with
  | none => simp
  | some op =>
      dsimp only
      by_cases hok : (b.session.step t).2.reply = .ok
      · rw [hok, Operation.after_ok]
        obtain rfl | ⟨rfl, -⟩ := h.granted op hop hok
        · have hpos : 0 < b.holds.reads := hp.allowed hop
          simp only [Operation.settle, Holds.lose, and_self, decide_true, Bool.toNat_true]
          omega
        · simp [Operation.settle, Holds.gain]
      · rw [Operation.after_of_ne op _ hok]
        simp [hok]

/-- What a taken flag keeps out, seen from the owner. -/
theorem KeepsOut.secluded {P : Stopped → Prop} {m : Lock} (h : KeepsOut key b t)
    (hb : Sound key P b o l) (hb' : Sound key P (b.next key t) (o.withLock m) m)
    (hp : b.Permits key t) (few : b.holds.reads < 2 ^ 32)
    (few' : (b.next key t).holds.reads < 2 ^ 32)
    (howner : ∀ a, b.session.Stands key a Stopped.drains → a = owner) :
    Secluded key owner b t := by
  have hreads := h.reads_next hp
  rw [← hb.readers_eq few, ← hb'.readers_eq few'] at hreads
  refine ⟨by omega, ?_, ?_⟩
  · intro op hop hok
    obtain rfl | ⟨rfl, hdrains⟩ := h.granted op hop hok
    · exact .inl rfl
    · have hactor := howner t.actor hdrains
      rw [hactor] at hdrains
      exact .inr ⟨rfl, hactor, hdrains⟩
  · intro hop
    have hnone : b.releases key t = false := by
      rw [releases, hop]
      simp
    rw [hnone] at hreads
    exact ⟨h.attempt hop, hreads⟩

/-! ## The whole time -/

/-- The owner has the flag: it is taken, and nobody else drains the readers. -/
structure Owned (key owner : Nat) (o : Object) (b : Ledger) : Prop where
  sound : ∃ l, Sound key Stopped.InOperation b (o.withLock l) l ∧ l.flag = true
  owner : ∀ a, b.session.Stands key a Stopped.drains → a = owner

/-- A turn that does not give the flag back. -/
structure Retains (key : Nat) (b : Ledger) (t : Turn) : Prop where
  admits : b.Admits key t
  keeps : ¬ b.Yields key t
  few : b.holds.reads < 2 ^ 32
  few' : (b.next key t).holds.reads < 2 ^ 32

theorem Owned.keepsOut (h : Owned key owner o b) (ht : Retains key b t) : KeepsOut key b t := by
  obtain ⟨l, hs, hf⟩ := h.sound
  exact hs.keepsOut hf ht.admits.1 ht.keeps ht.few

theorem Owned.next (h : Owned key owner o b) (ht : Retains key b t) :
    Owned key owner o (b.next key t) ∧ Secluded key owner b t := by
  have hkeeps := h.keepsOut ht
  obtain ⟨l, hs, hf⟩ := h.sound
  obtain ⟨m, hm, -⟩ := hs.next ht.admits.1 ht.admits.2
  refine ⟨⟨⟨m, ?_, ?_⟩, fun a ha => h.owner a (hkeeps.drains a ha)⟩,
    hkeeps.secluded hs hm ht.admits.1 ht.few ht.few' h.owner⟩
  · rw [Object.withLock_withLock] at hm
    exact hm
  · rw [← Session.flag_eq hm.object hm.lock]
    exact hkeeps.flag

theorem Owned.reads_after (h : Owned key owner o b) (ht : EveryTurn key (Retains key) b script) :
    Owned key owner o (b.after key script) ∧
      (b.after key script).holds.reads + released key b script = b.holds.reads := by
  induction script generalizing b with
  | nil => exact ⟨h, rfl⟩
  | cons t rest ih =>
      obtain ⟨howned, hreads⟩ := ih (h.next ht.1).1 ht.2
      have hnext := (h.keepsOut ht.1).reads_next ht.1.admits.1
      have hafter : b.after key (t :: rest) = (b.next key t).after key rest := Script.run_cons t
      refine ⟨howned, ?_⟩
      rw [hafter, released]
      omega

/-- A writer that takes the flag owns it, and no reader comes or goes meanwhile. -/
theorem Sound.owned_of_takes (h : Sound key Stopped.InOperation b (o.withLock l) l)
    (admits : b.Admits key t) (takes : b.Takes key t)
    (hop : b.session.operation? key t = some (.acquire .write))
    (few : b.holds.reads < 2 ^ 32) :
    Owned key t.actor o (b.next key t) ∧
      (b.next key t).session.readers key = b.session.readers key := by
  obtain ⟨hclear, hset⟩ := takes
  obtain ⟨m, hm, -⟩ := h.next admits.1 admits.2
  rw [Object.withLock_withLock] at hm
  rw [Session.flag_eq h.object h.lock] at hclear
  rw [Session.flag_eq hm.object hm.lock] at hset
  have hnobody : b.session.draining key = 0 := by
    have hzero := h.balanced.owners_eq_zero hclear
    omega
  have hreads : (b.next key t).holds.reads = b.holds.reads := by
    rw [Ledger.next, hop]
    dsimp only
    rw [Operation.after]
    split <;> rfl
  refine ⟨⟨⟨m, hm, hset⟩, ?_⟩, ?_⟩
  · intro a ha
    by_contra hne
    have hsame : (b.next key t).session.stopped.get? a = b.session.stopped.get? a :=
      Session.take_stopped_of_ne hne
    rw [Session.Stands, hsame] at ha
    have hpos : 0 < b.session.draining key := Session.tally_pos_of_stands ha
    omega
  · rw [hm.readers_eq (hreads ▸ few), h.readers_eq few, hreads]

/-- From the turn in which a writer takes the flag to the one that gives it back,
only the readers that were in can leave and nobody else gets in. If the writer
drains them, its call returns when it is resumed after all of them have left. -/
theorem drain_secluded {s : Session} {before interval : List Turn} {take : Turn}
    (fresh : s.Fresh key o)
    (disciplined : Disciplined key ⟨s, .none⟩ (before ++ take :: interval))
    (fewReads : FewReads key ⟨s, .none⟩ (before ++ take :: interval))
    (fewStarved : FewStarved key ⟨s, .none⟩ (before ++ take :: interval))
    (call : (after key ⟨s, .none⟩ before).session.operation? key take = some (.acquire .write))
    (takes : (after key ⟨s, .none⟩ before).Takes key take)
    (kept : EveryTurn key (fun b t => ¬ b.Yields key t)
      ((after key ⟨s, .none⟩ before).next key take) interval) :
    let b := after key ⟨s, .none⟩ before
    let b' := b.next key take
    b'.session.readers key = b.session.readers key ∧
      EveryTurn key (Secluded key take.actor) b' interval ∧
      ∀ first number turns rest,
        interval = first ++ ⟨take.actor, number, .resume turns⟩ :: rest →
        (b'.after key first).session.Stands key take.actor Stopped.drains →
        (((b'.after key first).session.step ⟨take.actor, number, .resume turns⟩).2.reply = .ok ↔
          released key b' first = b'.holds.reads) := by
  intro b b'
  have admitted : EveryTurn key (fun b t => b.Admits key t ∧ b.holds.reads < 2 ^ 32 ∧
      (b.next key t).holds.reads < 2 ^ 32) ⟨s, .none⟩ (before ++ take :: interval) :=
    (disciplined.and fewStarved).and fewReads.everyTurn
  obtain ⟨admittedBefore, ⟨htake, few, -⟩, admittedInterval⟩ :=
    Script.EveryTurn.append_iff.mp admitted
  obtain ⟨l, hs⟩ := (sound_of_admitted (sound_fresh fresh)
    (admittedBefore.mono fun _ _ h => h.1)).1.last
  obtain ⟨howned, hreaders⟩ := hs.owned_of_takes htake takes call few
  have retained : EveryTurn key (Retains key) b' interval :=
    (admittedInterval.and kept).mono fun _ _ ⟨⟨ha, hf, hf'⟩, hk⟩ => ⟨ha, hk, hf, hf'⟩
  refine ⟨hreaders, (retained.keeps howned fun _ _ h ht => h.next ht).2, ?_⟩
  rintro first number turns rest rfl hdrains
  obtain ⟨retainedFirst, hturn, -⟩ := Script.EveryTurn.append_iff.mp retained
  obtain ⟨hthen, hreads⟩ := howned.reads_after retainedFirst
  have hsum : (b'.after key first).holds.reads + released key b' first = b'.holds.reads := hreads
  have hnone : (b'.after key first).holds.reads = 0 ↔ released key b' first = b'.holds.reads := by
    omega
  exact ((hthen.keepsOut hturn).returns turns rfl hdrains).trans hnone

/-- A reader is in when a writer takes the flag. -/
def entered : List Turn :=
  [⟨0, 0, .waiting (.acquire .read)⟩]

/-- While the writer drains the reader, others begin, fail and spin in vain, and
the reader is refused an upgrade. -/
def drained : List Turn :=
  [⟨2, 0, .waiting (.acquire .read)⟩, ⟨3, 0, .waiting (.acquire .write)⟩,
    ⟨4, 0, .instant (.tryAcquire .read)⟩, ⟨0, 0, .instant .tryUpgrade⟩, ⟨2, 0, .resume 501⟩,
    ⟨1, 0, .resume 1⟩, ⟨0, 0, .instant (.unlock .read)⟩, ⟨2, 0, .resume 1⟩, ⟨1, 0, .resume 1⟩,
    ⟨3, 0, .resume 1⟩]

theorem drain_secluded_drained :
    let b := (after 0 ⟨.start (.bare .fresh), .none⟩ entered).next 0
      ⟨1, 0, .waiting (.acquire .write)⟩
    EveryTurn 0 (Secluded 0 1) b drained ∧
      ((b.after 0 (drained.take 5)).session.step ⟨1, 0, .resume 1⟩).2.reply ≠ .ok ∧
      ((b.after 0 (drained.take 8)).session.step ⟨1, 0, .resume 1⟩).2.reply = .ok := by
  intro b
  have fresh : (Session.start (.bare .fresh)).Fresh 0 (.bare .fresh) := Session.start_fresh rfl
  have disciplined : Disciplined 0 ⟨.start (.bare .fresh), .none⟩
      (entered ++ ⟨1, 0, .waiting (.acquire .write)⟩ :: drained) := by decide +kernel
  obtain ⟨-, hsecluded, hreturns⟩ := drain_secluded fresh disciplined (by decide +kernel)
    (by decide +kernel) (by decide +kernel) (by decide +kernel) (by decide +kernel)
  refine ⟨hsecluded, ?_, ?_⟩
  · rw [Ne, hreturns (drained.take 5) 0 1 (drained.drop 6) rfl (by decide +kernel)]
    decide +kernel
  · rw [hreturns (drained.take 8) 0 1 (drained.drop 9) rfl (by decide +kernel)]
    decide +kernel

end Ledger

end ReaderWriter
