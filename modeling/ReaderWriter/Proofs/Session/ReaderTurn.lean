import ReaderWriter.Proofs.Session.Soundness

/-!
# A turn of a reader

What a reader's turn comes to is a function of the flag and of where the reader
stands itself. The reader touches the words by deeds that add to them, and looks at
none of them but the flag, which no reader ever moves.

The function is total. It says what a turn comes to also where no discipline would
allow the turn, and there it says more than the lock keeps.
-/

namespace ReaderWriter

namespace Call

/-- A resumed reader that finds the flag down gets in. -/
theorem goOn_read_enters {o : Object} {l : Lock} {p readers owners raisers : Nat} (turns : Nat)
    (hl : o.lock? = some l) (hp : 0 < p)
    (hb : l.Balanced readers owners (raisers + (ReadWait.standing p).raised.toNat))
    (hf : l.flag = false) (few : p = 501 → raisers + 1 < 2 ^ 31) :
    goOn (turns + 1) (.pauseAt o (.onLock (.read none (.standing p)))) =
      some ⟨o.withLock (Deed.run (Deed.entering p) l), Deed.log (Deed.entering p),
        .finished .plain⟩ := by
  rw [goOn_read_of_not_flag turns hl hf, LockCall.resume, ReadWait.resume_enters hp hb hf few]
  simp [strideOnLock, Stride.relabel, Stride.andThen, Stride.within, Stride.done, Ending.ofHold]

end Call

/-- The call of a reader that stands in its pause `p`. -/
def Stopped.reader (key p : Nat) : Stopped :=
  ⟨key, p, .onLock (.read none (.standing p))⟩

/-- The step asks for a hold for reading, or it gives one back. -/
def Step.isReaders : Step → Bool
  | .waiting (.acquire .read) | .instant (.tryAcquire .read) | .instant (.unlock .read) => true
  | _ => false

/-- The turn is on the side of the readers of a lock: it asks for a hold for reading
or gives one back, or it resumes the call of a reader if it resumes a call at all. -/
def Turn.IsReaderSide (key : Nat) (call? : Option Stopped) (t : Turn) : Prop :=
  if t.step.isResume then ∀ c ∈ call?, c.object = key ∧ c.reads = true
  else t.object = key ∧ t.step.isReaders = true

instance (key : Nat) (call? : Option Stopped) (t : Turn) : Decidable (t.IsReaderSide key call?) :=
  inferInstanceAs (Decidable (ite _ _ _))

/-- What a turn on the side of the readers comes to: where its actor stands after it,
the reply, and what has been done to the lock. -/
structure ReaderTurn where
  call? : Option Stopped
  reply : Reply
  deeds : List Deed

/-- What comes of the step of an actor with the given call, on a lock with the given flag. -/
def ReaderTurn.of (key : Nat) (flag : Bool) : Option Stopped → Step → ReaderTurn
  | some c, .resume turns =>
    if flag then
      ⟨some (.reader key (c.pauses + max turns 1)), .paused (c.pauses + max turns 1),
        Deed.between c.pauses (c.pauses + max turns 1)⟩
    else ⟨none, .ok, Deed.entering c.pauses⟩
  | none, .waiting (.acquire .read) =>
    if flag then ⟨some (.reader key 1), .paused 1, Deed.whileOut 1⟩
    else ⟨none, .ok, Deed.whenIn 0⟩
  | none, .instant (.tryAcquire .read) =>
    if flag then ⟨none, .busy .written, [.arrive, .depart]⟩ else ⟨none, .ok, [.arrive]⟩
  | none, .instant (.unlock .read) => ⟨none, .ok, [.depart]⟩
  | some c, _ => ⟨some c, .refused .actorBusy, []⟩
  | none, _ => ⟨none, .refused .actorIdle, []⟩

/-- Any step but a resume is refused to an actor that is stopped. -/
theorem ReaderTurn.of_stopped {key : Nat} {flag : Bool} {c : Stopped} {step : Step}
    (hr : step.isResume = false) :
    of key flag (some c) step = ⟨some c, .refused .actorBusy, []⟩ := by
  cases step with
  | resume turns => cases hr
  | _ => rfl

namespace Ledger

/-- In the turn the lock is touched by the deeds, one after another, and by
nothing else, and they are all that is logged. -/
structure Performs (key : Nat) (b : Ledger) (t : Turn) (deeds : List Deed) : Prop where
  words : ∃ l, b.session.lock? key = some l ∧
    (b.next key t).session.lock? key = some (Deed.run deeds l)
  log : (b.session.step t).2.log = Deed.log deeds

/-- The turn comes to what is said. -/
structure Plays (key : Nat) (b : Ledger) (t : Turn) (u : ReaderTurn) : Prop where
  performs : b.Performs key t u.deeds
  reply : (b.session.step t).2.reply = u.reply
  stands : (b.next key t).session.stopped.get? t.actor = u.call?

variable {key : Nat} {b : Ledger} {o : Object} {l : Lock} {t : Turn} {now : List Deed}

theorem Plays.of_take {u : ReaderTurn} (ho : b.session.objects.get? key = some o)
    (hl : o.lock? = some l)
    (hobject : (b.session.take t).1.objects.get? key = some (o.withLock (Deed.run u.deeds l)))
    (hcall : (b.session.take t).1.stopped.get? t.actor = u.call?)
    (hreply : (b.session.take t).2.1 = u.reply)
    (hlog : (b.session.take t).2.2 = Deed.log u.deeds) : b.Plays key t u where
  performs := by
    have hafter := Session.lock?_eq hobject (Object.lock?_withLock_of hl _)
    exact ⟨⟨l, Session.lock?_eq ho hl, hafter⟩, hlog⟩
  reply := hreply
  stands := hcall

/-- A stride that performs deeds and pauses. -/
theorem Plays.of_paused {pauses : Nat} {call : Call}
    (ho : b.session.objects.get? key = some o) (hl : o.lock? = some l)
    (htake : b.session.take t = b.session.settle t.actor key pauses
      ⟨o.withLock (Deed.run now l), Deed.log now, .paused call⟩) :
    b.Plays key t ⟨some ⟨key, pauses, call⟩, .paused pauses, now⟩ := by
  apply Plays.of_take ho hl
  · rw [htake, Session.settle_objects, Registry.get?_insert_self]
  · rw [htake, Session.settle_get?_self]
  · rw [htake, Session.settle_reply]
  · rw [htake, Session.settle_log]

/-- A stride that performs deeds and ends its call. -/
theorem Plays.of_finished {pauses : Nat}
    (ho : b.session.objects.get? key = some o) (hl : o.lock? = some l)
    (htake : b.session.take t = b.session.settle t.actor key pauses
      ⟨o.withLock (Deed.run now l), Deed.log now, .finished .plain⟩) :
    b.Plays key t ⟨none, .ok, now⟩ := by
  apply Plays.of_take ho hl
  · rw [htake, Session.settle_objects, Registry.get?_insert_self]
  · rw [htake, Session.settle_get?_self]
  · rw [htake, Session.settle_reply]
    rfl
  · rw [htake, Session.settle_log]

/-- A turn in which nothing happens. -/
theorem Plays.of_stays {reply : Reply} (ho : b.session.objects.get? key = some o)
    (hl : o.lock? = some l) (htake : b.session.take t = (b.session, reply, [])) :
    b.Plays key t ⟨b.session.stopped.get? t.actor, reply, []⟩ := by
  apply Plays.of_take ho hl
  · rw [htake, ho]
    exact congrArg some (Object.withLock_self hl).symm
  · rw [htake]
  · rw [htake]
  · rw [htake]
    rfl

namespace Sound

variable {actor number p turns : Nat}

theorem plays_acquire (h : Sound key Stopped.InOperation b o l)
    (hfree : b.session.stopped.get? actor = none) :
    b.Plays key ⟨actor, key, .waiting (.acquire .read)⟩
      (.of key l.flag none (.waiting (.acquire .read))) := by
  have htake : b.session.take ⟨actor, key, .waiting (.acquire .read)⟩ =
      b.session.settle actor key 1 (Call.strideOnLock o (LockCall.acquire none .read l)) :=
    Session.take_waiting (.acquire .read) hfree h.object h.lock
  cases hf : l.flag with
  | true =>
      rw [Call.acquire_read_of_flag hf] at htake
      exact .of_paused h.object h.lock htake
  | false =>
      rw [Call.acquire_read_of_not_flag hf] at htake
      exact .of_finished h.object h.lock htake

theorem plays_instant {what : Instant} (now : List Deed)
    (h : Sound key Stopped.InOperation b o l)
    (hfree : b.session.stopped.get? actor = none)
    (hrun : (what.run l).1 = Deed.run now l) (hlog : Deed.log now = []) :
    b.Plays key ⟨actor, key, .instant what⟩ ⟨none, (what.run l).2, now⟩ := by
  have htake : b.session.take ⟨actor, key, .instant what⟩ =
      (b.session.withObject key (o.withLock (what.run l).1), (what.run l).2, []) :=
    Session.take_instant what hfree h.object h.lock
  apply Plays.of_take h.object h.lock
  · rw [htake, hrun]
    exact Registry.get?_insert_self _ _ _
  · rw [htake]
    exact hfree
  · rw [htake]
  · rw [htake, hlog]

theorem plays_tryAcquire (h : Sound key Stopped.InOperation b o l)
    (hfree : b.session.stopped.get? actor = none) :
    b.Plays key ⟨actor, key, .instant (.tryAcquire .read)⟩
      (.of key l.flag none (.instant (.tryAcquire .read))) := by
  have hrun : (Instant.tryAcquire .read).run l = l.tryRead.map id .ofAttempt := rfl
  rw [Lock.tryRead, Lock.arrive_flag] at hrun
  cases hf : l.flag with
  | true =>
      rw [hf] at hrun
      have hplays := h.plays_instant [.arrive, .depart] hfree (congrArg Prod.fst hrun) rfl
      rw [hrun] at hplays
      exact hplays
  | false =>
      rw [hf] at hrun
      have hplays := h.plays_instant [.arrive] hfree (congrArg Prod.fst hrun) rfl
      rw [hrun] at hplays
      exact hplays

theorem plays_resume (h : Sound key Stopped.InOperation b o l) (hp : 0 < p)
    (hget : b.session.stopped.get? actor = some (.reader key p))
    (few : b.session.peak key Stopped.isStarved ⟨actor, number, .resume turns⟩ < 2 ^ 31) :
    b.Plays key ⟨actor, number, .resume turns⟩
      (.of key l.flag (some (.reader key p)) (.resume turns)) := by
  obtain ⟨n, hn⟩ := Call.exists_turns turns
  cases hf : l.flag with
  | true =>
      have hgo := Call.goOn_read_of_flag none (max turns 1) h.lock hf hp
      exact .of_paused h.object h.lock (Session.take_goOn number h.object hget hgo)
  | false =>
      have hb := h.balanced_of_stopped hget rfl
      have hothers : (b.session.tallyOthers key actor fun c => c.call.hasRaised) ≤
          b.session.raised key := by
        have hsplit := Session.tally_of_stopped hget rfl (p := fun c => c.call.hasRaised)
        exact Nat.le.intro hsplit.symm
      have room : p = 501 →
          (b.session.tallyOthers key actor fun c => c.call.hasRaised) + 1 < 2 ^ 31 := by
        intro hlast
        have hnow := h.room_now hget rfl few (decide_eq_true hlast)
        omega
      have hgo := Call.goOn_read_enters n h.lock hp hb hf room
      rw [← hn] at hgo
      exact .of_finished h.object h.lock (Session.take_goOn number h.object hget hgo)

/-- A reader's call on the lock stands in one of its pauses. -/
theorem reader_of_reads {c : Stopped} (h : Sound key Stopped.InOperation b o l)
    (hget : b.session.stopped.get? actor = some c) (hc : c.object = key) (hr : c.reads = true) :
    0 < c.pauses ∧ c = .reader key c.pauses := by
  obtain ⟨mode, hstands⟩ := h.calls actor c hget hc
  rw [Stopped.reads, hstands.ofCall?_eq, decide_eq_true_iff] at hr
  cases hr
  obtain ⟨object, p, call⟩ := c
  obtain rfl : object = key := hc
  exact ⟨hstands.1, congrArg (Stopped.mk object p) hstands.2⟩

/-- Every turn on the side of the readers comes to what the flag and its actor's call say. -/
theorem plays (h : Sound key Stopped.InOperation b o l)
    (hside : t.IsReaderSide key (b.session.stopped.get? t.actor))
    (few : b.session.peak key Stopped.isStarved t < 2 ^ 31) :
    b.Plays key t (.of key l.flag (b.session.stopped.get? t.actor) t.step) := by
  obtain ⟨actor, number, step⟩ := t
  dsimp only at hside ⊢
  cases hget : b.session.stopped.get? actor with
  | some c =>
      obtain ⟨turns, rfl⟩ | hr := step.resume_or_not
      · obtain ⟨hc, hreads⟩ := hside c hget
        obtain ⟨hp, hreader⟩ := h.reader_of_reads hget hc hreads
        rw [hreader] at hget ⊢
        exact h.plays_resume hp hget few
      · rw [ReaderTurn.of_stopped hr, ← hget]
        exact .of_stays h.object h.lock (Session.take_of_stopped hget hr)
  | none =>
      obtain ⟨turns, rfl⟩ | hr := step.resume_or_not
      · have htake : b.session.take ⟨actor, number, .resume turns⟩ =
            b.session.refuse .actorIdle := by
          rw [Session.take, hget]
        have hplays := Plays.of_stays h.object h.lock htake
        rw [hget] at hplays
        exact hplays
      · rw [Turn.IsReaderSide, hr, if_neg Bool.false_ne_true] at hside
        obtain ⟨rfl, hreaders⟩ := hside
        unfold Step.isReaders at hreaders
        dsimp only at hreaders
        split at hreaders
        · exact h.plays_acquire hget
        · exact h.plays_tryAcquire hget
        · exact h.plays_instant [.depart] hget rfl rfl
        · cases hreaders

end Sound

end Ledger

end ReaderWriter
