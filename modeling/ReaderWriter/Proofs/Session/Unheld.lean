import ReaderWriter.Proofs.Session.Overtaking

/-!
# Locks that nobody holds

When there are no holds on a lock, the calls that are stopped on it wait only
for one another. A writer that owns the flag has no reader left to wait for, so
it returns. While nobody owns the flag no reader waits for anything, and while
in addition no reader has raised the barrier no writer does.

A call that has to go on waiting is never left with the flag. So once the flag
is free between two turns, it stays free.
-/

namespace ReaderWriter

namespace Lock.Balanced

variable {l : Lock} {owners raisers : Nat}

/-- A writer that does not get in on a lock without readers owns no flag before
or after, and somebody else owns the flag or has raised the barrier. -/
theorem resumeWrite_unheld (h : l.Balanced 0 owners raisers) (place : WriteWait) :
    ∀ place', (place.resume l).progress = .paused place' →
      place.isDrain = false ∧ place'.isDrain = false ∧ (0 < owners ∨ 0 < raisers) := by
  have hempty : ∀ {m : Lock} {owners : Nat}, m.Balanced 0 owners raisers →
      m.writeDrain = .done m () :=
    fun hm => if_pos (hm.isEmpty_iff.mpr rfl)
  have flag : ∀ place', l.writeFlag.progress = .paused place' →
      place'.isDrain = false ∧ (0 < owners ∨ 0 < raisers) := by
    intro place' hp
    rw [Lock.writeFlag] at hp
    cases hf : l.flag with
    | true =>
        rw [claim_of_flag hf] at hp
        cases hp
        have howned := h.flag_iff.mp hf
        exact ⟨rfl, by omega⟩
    | false =>
        obtain rfl := h.owners_eq_zero hf
        obtain ⟨m, hclaim, hm, -⟩ := h.claim
        rw [hclaim] at hp
        dsimp only at hp
        rw [hempty hm] at hp
        cases hp
  intro place' hp
  cases place with
  | barrier =>
      rw [WriteWait.resume, Lock.write] at hp
      split at hp
      · next hb =>
          cases hp
          exact ⟨rfl, rfl, .inr (h.isBarred_iff.mp hb)⟩
      · exact ⟨rfl, flag place' hp⟩
  | flag => exact ⟨rfl, flag place' hp⟩
  | drain =>
      rw [WriteWait.resume, hempty h] at hp
      cases hp

end Lock.Balanced

namespace Call

variable {o : Object} {l : Lock} {owners raisers : Nat} {guard? : Option String} {mode : Mode}

/-- A call that has to go on waiting on a lock without readers owns no flag
before or after, and somebody else owns the flag, or a writer finds the barrier
raised. -/
theorem goOn_unheld {turns p : Nat} {call : Call} {went : Stride Object Call Ending}
    (hl : o.lock? = some l) (hb : l.Balanced 0 owners raisers)
    (hop : call.StandsAt guard? mode p)
    (hgo : goOn (turns + 1) (.pauseAt o call) = some went) :
    ∀ call', went.progress = .paused call' →
      call.isDraining = false ∧ call'.isDraining = false ∧
        (0 < owners ∨ mode = .write ∧ 0 < raisers) := by
  intro call' hp
  cases mode with
  | read =>
      obtain ⟨hpos, rfl⟩ := hop
      cases hf : l.flag with
      | true =>
          rw [goOn_read_of_flag guard? _ hl hf hpos] at hgo
          cases hgo
          cases hp
          have howned := hb.flag_iff.mp hf
          exact ⟨rfl, rfl, by omega⟩
      | false =>
          rw [goOn_read_of_not_flag turns hl hf] at hgo
          cases hgo
          exact absurd hp (resume_read_of_not_flag hf call')
  | write =>
      obtain ⟨place, rfl⟩ := hop
      rw [goOn_write turns hl] at hgo
      cases hgo
      have hwait := hb.resumeWrite_unheld place
      rw [strideOnLock, LockCall.resume] at hp
      generalize place.resume l = s at hp hwait
      obtain ⟨m, log, progress⟩ := s
      cases progress with
      | paused place' =>
          cases hp
          obtain ⟨hbefore, hafter, hwhy⟩ := hwait place' rfl
          exact ⟨hbefore, hafter, hwhy.imp_right fun hr => ⟨rfl, hr⟩⟩
      | finished result => cases hp
      | violated breach => cases hp

end Call

/-- A turn that resumes a call stops no more calls than were stopped. -/
theorem Session.waiting_resume_le {s : Session} {actor : Nat} {c : Stopped}
    (hget : s.stopped.get? actor = some c) (number turns : Nat) :
    (s.step ⟨actor, number, .resume turns⟩).1.waiting c.object ≤ s.waiting c.object := by
  have hmoves := s.take_moves ⟨actor, number, .resume turns⟩
  rw [step]
  generalize s.take ⟨actor, number, .resume turns⟩ = u at hmoves ⊢
  cases hmoves with
  | stays reply => exact Nat.le_refl _
  | resumes turns' c' o went stopped there asked run =>
      obtain rfl : c = c' := Option.some.inj (hget.symm.trans stopped)
      rw [waiting, waiting, tally_settle, tally_of_stopped hget rfl]
      cases went.progress <;> simp
  | sets o reply begun asked => cases begun.fresh
  | removes reply log begun asked => cases begun.fresh
  | begins went begun asked names => cases begun.fresh
  | makes name mode l values begun there untaken asked => cases begun.fresh
  | obtains name mode l m values begun there untaken asked granted => cases begun.fresh
  | misses name mode l m values why begun there asked refused => cases begun.fresh
  | uses name g use l values r begun alive there asked run => cases begun.fresh

namespace Ledger

variable {key actor number turns : Nat} {b : Ledger} {o : Object} {c : Stopped} {mode : Mode}

/-- Nobody holds the lock, its ledger is sound, and the barrier has room for all
calls that are stopped. -/
structure Unheld (key : Nat) (o : Object) (b : Ledger) : Prop where
  nobody : b.holds = .none
  sound : ∃ l, Sound key Stopped.InOperation b (o.withLock l) l
  few : b.session.waiting key < 2 ^ 31

/-- The call of the actor returns in the turn, with a hold. -/
structure Returns (key : Nat) (b : Ledger) (t : Turn) (mode : Mode) : Prop where
  reply : (b.session.step t).2.reply = .ok
  holds : (b.next key t).holds = Holds.none.gain mode
  free : (b.next key t).session.stopped.get? t.actor = none

/-- The call `c` has to go on waiting, as the call `c'`. It owns no flag before or
after. Somebody else does, or it is a writer's and a reader has raised the barrier. -/
structure Continues (key : Nat) (b : Ledger) (c c' : Stopped) : Prop where
  before : c.call.isDraining = false
  after : c'.call.isDraining = false
  same : Operation.ofCall? c'.call = Operation.ofCall? c.call
  why : 0 < b.session.draining key ∨
    Operation.ofCall? c.call = some (.acquire .write) ∧ 0 < b.session.raised key

/-- The call of the actor has to go on waiting after the turn. -/
structure Waits (key : Nat) (b : Ledger) (t : Turn) (c : Stopped) : Prop where
  reply : (b.session.step t).2.reply ≠ .ok
  holds : (b.next key t).holds = .none
  still : ∃ c', (b.next key t).session.stopped.get? t.actor = some c' ∧ b.Continues key c c'

/-- On a lock that nobody holds a resumed call returns, or it has to go on waiting. -/
theorem Unheld.resume (h : b.Unheld key o) (hget : b.session.stopped.get? actor = some c)
    (hc : c.object = key) (number turns : Nat) :
    let t : Turn := ⟨actor, number, .resume turns⟩
    (∃ l, Sound key Stopped.InOperation (b.next key t) (o.withLock l) l) ∧
      (b.next key t).session.waiting key < 2 ^ 31 ∧
      ∃ mode, Operation.ofCall? c.call = some (.acquire mode) ∧
        (b.Returns key t mode ∨ b.Waits key t c) := by
  subst hc
  intro t
  obtain ⟨l, hs⟩ := h.sound
  obtain ⟨mode, hop⟩ := hs.calls actor c hget rfl
  have hwaiting : (b.session.step t).1.waiting c.object < 2 ^ 31 :=
    Nat.lt_of_le_of_lt (Session.waiting_resume_le hget number turns) h.few
  have room : b.session.peak c.object Stopped.isStarved t < 2 ^ 31 :=
    Nat.lt_of_le_of_lt (b.session.peak_le_waiting c.object t) (Nat.max_lt.mpr ⟨h.few, hwaiting⟩)
  obtain ⟨m, hm, -⟩ := hs.next (fun _ => .inl rfl) room
  rw [Object.withLock_withLock] at hm
  refine ⟨⟨m, hm⟩, hwaiting, mode, hop.ofCall?_eq, ?_⟩
  obtain ⟨went, hgo, hwent⟩ := hs.resume_meets (fun _ => id) hget rfl hop
    (hs.room_now hget rfl room) (Sound.room_later room)
  obtain ⟨hnext, hreply⟩ := next_resume number hs.object hget hgo
  rw [hop.ofCall?_eq] at hnext
  dsimp only at hnext
  obtain ⟨call, hp, -, -, hstands, -⟩ | ⟨ending, hf, -, -, rfl, -⟩ := hwent.cases
  · right
    obtain ⟨n, hn⟩ := Call.exists_turns turns
    have hb := hs.balanced
    rw [h.nobody] at hb
    rw [hn] at hgo
    obtain ⟨hbefore, hafter, hwhy⟩ := Call.goOn_unheld hs.lock hb hop hgo call hp
    rw [Session.settle_reply, hp] at hreply hnext
    rw [Operation.after_of_ne _ _ (by simp)] at hnext
    refine ⟨?_, ?_, ⟨c.object, c.pauses + max turns 1, call⟩, ?_, hbefore, hafter, ?_, ?_⟩
    · rw [hreply]
      simp
    · rw [hnext]
      exact h.nobody
    · rw [hnext, Session.settle_get?_self, hp]
    · rw [hop.ofCall?_eq, hstands.ofCall?_eq]
    · rw [hop.ofCall?_eq]
      rw [Holds.none, Nat.zero_add] at hwhy
      exact hwhy.imp_right (And.imp_left fun hmode => by rw [hmode])
  · left
    rw [Session.settle_reply, hf] at hreply hnext
    have hok : Reply.ofEnding (.ofHold none mode) = .ok := rfl
    dsimp only at hreply hnext
    rw [hok] at hreply hnext
    refine ⟨hreply, ?_, ?_⟩
    · rw [hnext, h.nobody]
      rfl
    · rw [hnext, Session.settle_get?_self, hf]

end Ledger

end ReaderWriter
