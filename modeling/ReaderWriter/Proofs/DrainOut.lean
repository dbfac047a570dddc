import ReaderWriter.Proofs.Accounting
import ReaderWriter.Proofs.Session.Unheld

/-!
# No deadlock, and a bounded drain-out

When nobody holds the lock, the calls that are stopped on it cannot wait for
one another in a circle. A writer that owns the flag returns as soon as it is
resumed. If there is none, every reader does, and if there is no reader either,
every writer does.

So when the stopped actors are resumed in rounds, each once a round and in any
order, and each gives back at once what it gets, the first round lets the owner
of the flag through, the second all readers, and the third whoever is left.
-/

namespace ReaderWriter.Ledger

variable {key actor : Nat} {b : Ledger} {o : Object} {c : Stopped}

/-! ## Rounds -/

/-- The turns in which an actor is resumed and, if its call returns, gives back
at once what it was granted. -/
def relief (key : Nat) (b : Ledger) (actor turns : Nat) : List Turn :=
  let t : Turn := ⟨actor, key, .resume turns⟩
  match b.session.operation? key t, (b.session.step t).2.reply with
  | some (.acquire mode), .ok => [t, ⟨actor, key, .instant (.unlock mode)⟩]
  | _, _ => [t]

/-- The turns in which the listed actors are resumed one after another, each for
the number of turns beside it. -/
def round (key : Nat) : Ledger → List (Nat × Nat) → List Turn
  | _, [] => []
  | b, (actor, turns) :: rest =>
    b.relief key actor turns ++ round key (b.after key (b.relief key actor turns)) rest

/-- The ledger after a round. -/
def afterRound (key : Nat) (b : Ledger) (list : List (Nat × Nat)) : Ledger :=
  b.after key (b.round key list)

/-- The actors that are stopped on an object. -/
def stoppedOn (key : Nat) (b : Ledger) : List Nat :=
  (b.session.stopped.entries.filter fun e => e.2.object == key).map Prod.fst

/-- The list has each actor that is stopped on the object, in any order. -/
def Covers (key : Nat) (b : Ledger) (list : List (Nat × Nat)) : Prop :=
  (list.map Prod.fst).Perm (b.stoppedOn key)

instance (key : Nat) (b : Ledger) (list : List (Nat × Nat)) : Decidable (b.Covers key list) :=
  inferInstanceAs (Decidable (List.Perm _ _))

theorem mem_stoppedOn :
    actor ∈ b.stoppedOn key ↔ ∃ c, b.session.stopped.get? actor = some c ∧ c.object = key := by
  constructor
  · intro h
    obtain ⟨e, he, rfl⟩ := List.mem_map.mp h
    obtain ⟨hmem, hkey⟩ := List.mem_filter.mp he
    exact ⟨e.2, Registry.get?_of_mem hmem, beq_iff_eq.mp hkey⟩
  · rintro ⟨c, hget, hc⟩
    refine List.mem_map.mpr ⟨(actor, c), ?_, rfl⟩
    exact List.mem_filter.mpr ⟨Registry.mem_of_get? hget, beq_iff_eq.mpr hc⟩

theorem nodup_stoppedOn : (b.stoppedOn key).Nodup :=
  b.session.stopped.distinct.sublist (List.filter_sublist.map _)

/-! ## One actor's part in a round -/

/-- Whoever gets in on a lock that nobody holds can give it back at once. -/
theorem unlock_alone {P : Stopped → Prop} {l : Lock} {mode : Mode} (hs : Sound key P b o l)
    (hfree : b.session.stopped.get? actor = none) (hholds : b.holds = Holds.none.gain mode) :
    let b' := b.next key ⟨actor, key, .instant (.unlock mode)⟩
    (∃ m, Sound key P b' (o.withLock m) m) ∧ b'.holds = .none ∧
      b'.session.stopped = b.session.stopped := by
  intro b'
  have hop : Operation.ofInstant? (.unlock mode) = some (.unlock mode) := rfl
  have hallowed : (Operation.unlock mode).Allowed b.holds := by
    rw [hholds]
    cases mode <;> exact Nat.one_pos
  obtain ⟨hnext, hreply⟩ := next_instant hs.object hs.lock hfree hop
  obtain ⟨m, hm, -, kept⟩ := hs.instant hfree hop hallowed
  have hok : (Instant.run l (.unlock mode)).2 = .ok := by
    rw [hreply] at kept
    exact Operation.unlock_ok kept
  rw [hok, Operation.after_ok] at hnext
  refine ⟨⟨m, hm⟩, ?_, ?_⟩
  · change (b.next key ⟨actor, key, .instant (.unlock mode)⟩).holds = .none
    rw [hnext, hholds]
    cases mode <;> rfl
  · change (b.next key ⟨actor, key, .instant (.unlock mode)⟩).session.stopped = _
    rw [hnext]
    rfl

theorem Unheld.relief (h : b.Unheld key o) (hget : b.session.stopped.get? actor = some c)
    (hc : c.object = key) (turns : Nat) :
    let b' := b.after key (b.relief key actor turns)
    b'.Unheld key o ∧ (∀ a ≠ actor, b'.session.stopped.get? a = b.session.stopped.get? a) ∧
      ∀ c', b'.session.stopped.get? actor = some c' → b.Continues key c c' := by
  intro b'
  obtain ⟨⟨l, hs⟩, hfew, mode, hmode, hresult⟩ := h.resume hget hc key turns
  have hoperation := Session.operation?_resume hget key turns
  rw [hc, hmode] at hoperation
  have hothers : ∀ a ≠ actor, (b.next key ⟨actor, key, .resume turns⟩).session.stopped.get? a =
      b.session.stopped.get? a := fun a ha => Session.take_stopped_of_ne ha
  obtain hreturns | hwaits := hresult
  · have hturns : b.relief key actor turns =
        [⟨actor, key, .resume turns⟩, ⟨actor, key, .instant (.unlock mode)⟩] := by
      rw [Ledger.relief]
      rw [hoperation, hreturns.reply]
    obtain ⟨⟨m, hm⟩, hnone, hstopped⟩ := unlock_alone hs hreturns.free hreturns.holds
    rw [Object.withLock_withLock] at hm
    have hb' : b' = (b.next key ⟨actor, key, .resume turns⟩).next key
        ⟨actor, key, .instant (.unlock mode)⟩ := by
      change b.after key _ = _
      rw [hturns]
      rfl
    rw [hb', hstopped]
    refine ⟨⟨hnone, ⟨m, hm⟩, ?_⟩, hothers, ?_⟩
    · rw [Session.waiting, Session.tally, hstopped]
      exact hfew
    · intro c' hget'
      rw [hreturns.free] at hget'
      cases hget'
  · have hturns : b.relief key actor turns = [⟨actor, key, .resume turns⟩] := by
      rw [Ledger.relief]
      rw [hoperation]
      split
      · next hok => exact absurd hok hwaits.reply
      · rfl
    have hb' : b' = b.next key ⟨actor, key, .resume turns⟩ := by
      change b.after key _ = _
      rw [hturns]
      rfl
    rw [hb']
    refine ⟨⟨hwaits.holds, ⟨l, hs⟩, hfew⟩, hothers, ?_⟩
    intro c' hget'
    obtain ⟨c'', hget'', hcontinues⟩ := hwaits.still
    rw [hget'] at hget''
    cases hget''
    exact hcontinues

/-! ## Whole rounds -/

/-- If every actor that is relieved ends without the property, and all others are
left where they are, then nobody has the property after a round of those who
have it. -/
theorem afterRound_clears {I : Ledger → Prop} {p : Stopped → Bool}
    (turn : ∀ b actor c turns, I b → b.session.stopped.get? actor = some c → c.object = key →
      let b' := b.after key (b.relief key actor turns)
      I b' ∧ (∀ a ≠ actor, b'.session.stopped.get? a = b.session.stopped.get? a) ∧
        ¬ b'.session.Stands key actor p) :
    ∀ (list : List (Nat × Nat)) (b : Ledger), I b → (list.map Prod.fst).Nodup →
      (∀ a ∈ list.map Prod.fst, a ∈ b.stoppedOn key) →
      (∀ a, b.session.Stands key a p → a ∈ list.map Prod.fst) →
        I (b.afterRound key list) ∧ ∀ a, ¬ (b.afterRound key list).session.Stands key a p := by
  intro list
  induction list with
  | nil =>
      intro b hb _ _ hall
      exact ⟨hb, fun a ha => absurd (hall a ha) List.not_mem_nil⟩
  | cons entry rest ih =>
      obtain ⟨actor, turns⟩ := entry
      intro b hb hnodup hstopped hall
      obtain ⟨hnot, hrest⟩ := List.nodup_cons.mp hnodup
      obtain ⟨c, hget, hc⟩ := mem_stoppedOn.mp (hstopped actor List.mem_cons_self)
      obtain ⟨hb', hothers, hgone⟩ := turn b actor c turns hb hget hc
      have hround : b.afterRound key ((actor, turns) :: rest) =
          (b.after key (b.relief key actor turns)).afterRound key rest := by
        rw [afterRound, round, afterRound]
        exact Script.run_append
      rw [hround]
      apply ih _ hb' hrest
      · intro a ha
        have hne : a ≠ actor := fun heq => hnot (heq ▸ ha)
        rw [mem_stoppedOn, hothers a hne, ← mem_stoppedOn]
        exact hstopped a (List.mem_cons_of_mem _ ha)
      · intro a ha
        have hne : a ≠ actor := fun heq => hgone (heq ▸ ha)
        rw [Session.Stands, hothers a hne] at ha
        exact (List.mem_cons.mp (hall a ha)).resolve_left hne

/-- A list that covers the stopped actors serves for a round. -/
theorem Covers.clears {I : Ledger → Prop} {p : Stopped → Bool} {list : List (Nat × Nat)}
    (h : b.Covers key list) (hb : I b)
    (turn : ∀ b actor c turns, I b → b.session.stopped.get? actor = some c → c.object = key →
      let b' := b.after key (b.relief key actor turns)
      I b' ∧ (∀ a ≠ actor, b'.session.stopped.get? a = b.session.stopped.get? a) ∧
        ¬ b'.session.Stands key actor p) :
    I (b.afterRound key list) ∧ ∀ a, ¬ (b.afterRound key list).session.Stands key a p := by
  apply afterRound_clears turn list b hb
  · exact h.nodup_iff.mpr nodup_stoppedOn
  · exact fun a ha => h.mem_iff.mp ha
  · rintro a ⟨c, hget, hc, -⟩
    exact h.mem_iff.mpr (mem_stoppedOn.mpr ⟨c, hget, hc⟩)

/-! ## Who is let through when -/

/-- While nobody owns the flag only writers go on waiting, and only for the barrier. -/
theorem Continues.writes {c' : Stopped} (h : b.Continues key c c')
    (hd : ∀ a, ¬ b.session.Stands key a Stopped.drains) :
    Operation.ofCall? c.call = some (.acquire .write) ∧ 0 < b.session.raised key := by
  have hzero : b.session.draining key = 0 := Session.tally_eq_zero_of_stands hd
  have hwhy := h.why
  rw [hzero] at hwhy
  exact hwhy.resolve_left (Nat.lt_irrefl 0)

theorem Continues.not_reads {c' : Stopped} (h : b.Continues key c c')
    (hd : ∀ a, ¬ b.session.Stands key a Stopped.drains) : c'.reads = false := by
  rw [Stopped.reads, h.same, (h.writes hd).1]
  rfl

namespace Unheld

/-- Only readers raise the barrier. -/
theorem raised_eq_zero (h : b.Unheld key o) (hr : ∀ a, ¬ b.session.Stands key a Stopped.reads) :
    b.session.raised key = 0 := by
  obtain ⟨l, hs⟩ := h.sound
  apply Session.tally_eq_zero_of_stands
  rintro a ⟨c, hget, hc, hraised⟩
  obtain ⟨mode, hop⟩ := hs.calls a c hget hc
  cases mode with
  | read => exact hr a ⟨c, hget, hc, decide_eq_true hop.ofCall?_eq⟩
  | write =>
      obtain ⟨place, hcall⟩ := hop
      have hcalm : c.call.hasRaised = false := by
        rw [hcall]
        rfl
      exact absurd hraised (ne_true_of_eq_false hcalm)

/-- One of the stopped calls returns as soon as it is resumed. -/
theorem exists_returns (h : b.Unheld key o) (hq : ¬ b.Quiet key) :
    ∃ actor ∈ b.stoppedOn key, ∀ number turns,
      (b.session.step ⟨actor, number, .resume turns⟩).2.reply = .ok := by
  have returns : ∀ a c, b.session.stopped.get? a = some c → c.object = key →
      (∀ c', ¬ b.Continues key c c') → ∃ actor ∈ b.stoppedOn key, ∀ number turns,
        (b.session.step ⟨actor, number, .resume turns⟩).2.reply = .ok := by
    intro a c hget hc hnot
    refine ⟨a, mem_stoppedOn.mpr ⟨c, hget, hc⟩, fun number turns => ?_⟩
    obtain ⟨-, -, mode, -, hreturns | hwaits⟩ := h.resume hget hc number turns
    · exact hreturns.reply
    · obtain ⟨c', -, hcontinues⟩ := hwaits.still
      exact absurd hcontinues (hnot c')
  by_cases hd : ∃ a, b.session.Stands key a Stopped.drains
  · obtain ⟨a, c, hget, hc, hdrains⟩ := hd
    apply returns a c hget hc
    intro c' hcontinues
    rw [Stopped.drains, hcontinues.before] at hdrains
    cases hdrains
  · have hfree := not_exists.mp hd
    by_cases hr : ∃ a, b.session.Stands key a Stopped.reads
    · obtain ⟨a, c, hget, hc, hreads⟩ := hr
      apply returns a c hget hc
      intro c' hcontinues
      rw [Stopped.reads, (hcontinues.writes hfree).1] at hreads
      cases hreads
    · have hlowered := h.raised_eq_zero (not_exists.mp hr)
      simp only [Quiet, not_forall, not_not] at hq
      obtain ⟨a, c, hget, hc⟩ := hq
      apply returns a c hget hc
      intro c' hcontinues
      have hraised := (hcontinues.writes hfree).2
      omega

end Unheld

/-! ## Three rounds -/

/-- Nobody holds the lock or owns its flag. -/
structure Unowned (key : Nat) (o : Object) (b : Ledger) : Prop extends Unheld key o b where
  unowned : ∀ a, ¬ b.session.Stands key a Stopped.drains

/-- Nobody holds the lock or owns its flag, and only writers wait for it. -/
structure Unread (key : Nat) (o : Object) (b : Ledger) : Prop extends Unowned key o b where
  unread : ∀ a, ¬ b.session.Stands key a Stopped.reads

variable {p : Stopped → Bool} {b' : Ledger} {list : List (Nat × Nat)}

theorem not_stands_of (h : ∀ c, b.session.stopped.get? actor = some c → p c = false) :
    ¬ b.session.Stands key actor p := by
  rintro ⟨c, hget, -, hp⟩
  rw [h c hget] at hp
  cases hp

/-- Nobody comes to have a property but the one whose turn it is. -/
theorem not_stands_of_others
    (hothers : ∀ a ≠ actor, b'.session.stopped.get? a = b.session.stopped.get? a)
    (hself : ¬ b'.session.Stands key actor p) (h : ∀ a, ¬ b.session.Stands key a p) (a : Nat) :
    ¬ b'.session.Stands key a p := by
  by_cases ha : a = actor
  · rw [ha]
    exact hself
  · rw [Session.Stands, hothers a ha]
    exact h a

namespace Unheld

/-- After a round nobody owns the flag. -/
theorem first_round (h : b.Unheld key o) (hl : b.Covers key list) :
    (b.afterRound key list).Unowned key o := by
  have hcleared : (b.afterRound key list).Unheld key o ∧
      ∀ a, ¬ (b.afterRound key list).session.Stands key a Stopped.drains := by
    apply hl.clears h
    intro b actor c turns hb hget hc
    obtain ⟨hb', hothers, hcontinues⟩ := hb.relief hget hc turns
    exact ⟨hb', hothers, not_stands_of fun c' hget' => (hcontinues c' hget').after⟩
  exact ⟨hcleared.1, hcleared.2⟩

end Unheld

/-- After a round in which nobody owns the flag there are no readers left. -/
theorem Unowned.second_round (h : b.Unowned key o) (hl : b.Covers key list) :
    (b.afterRound key list).Unread key o := by
  have hcleared : (b.afterRound key list).Unowned key o ∧
      ∀ a, ¬ (b.afterRound key list).session.Stands key a Stopped.reads := by
    apply hl.clears h
    intro b actor c turns hb hget hc
    obtain ⟨hb', hothers, hcontinues⟩ := hb.relief hget hc turns
    refine ⟨⟨hb', ?_⟩, hothers, ?_⟩
    · exact not_stands_of_others hothers
        (not_stands_of fun c' hget' => (hcontinues c' hget').after) hb.unowned
    · exact not_stands_of fun c' hget' => (hcontinues c' hget').not_reads hb.unowned
  exact ⟨hcleared.1, hcleared.2⟩

/-- After a round of writers alone nobody is left. -/
theorem Unread.third_round (h : b.Unread key o) (hl : b.Covers key list) :
    (b.afterRound key list).Unheld key o ∧ (b.afterRound key list).Quiet key := by
  have hcleared : (b.afterRound key list).Unread key o ∧
      ∀ a, ¬ (b.afterRound key list).session.Stands key a fun _ => true := by
    apply hl.clears h
    intro b actor c turns hb hget hc
    obtain ⟨hb', hothers, hcontinues⟩ := hb.relief hget hc turns
    have hgone : ∀ p, ¬ (b.after key (b.relief key actor turns)).session.Stands key actor p := by
      rintro p ⟨c', hget', -⟩
      have hraised := ((hcontinues c' hget').writes hb.unowned).2
      have hlowered := hb.raised_eq_zero hb.unread
      omega
    exact ⟨⟨⟨hb', not_stands_of_others hothers (hgone _) hb.unowned⟩,
      not_stands_of_others hothers (hgone _) hb.unread⟩, hothers, hgone _⟩
  exact ⟨hcleared.1.toUnheld, fun a c hget hc => hcleared.2 a ⟨c, hget, hc, rfl⟩⟩

/-- Nobody holds the lock or waits for it, and its words show that. -/
structure Idle (key : Nat) (o : Object) (b : Ledger) : Prop where
  quiet : b.Quiet key
  nobody : b.holds = .none
  words : ∃ l, b.session.objects.get? key = some (o.withLock l) ∧ l.isIdle = true

theorem Unheld.idle (h : b.Unheld key o) (hq : b.Quiet key) : b.Idle key o := by
  obtain ⟨l, hs⟩ := h.sound
  have hx : b.holds.Exclusive := by
    rw [h.nobody]
    exact Holds.none_exclusive
  have few : b.holds.reads < 2 ^ 32 := by
    rw [h.nobody]
    exact Nat.two_pow_pos 32
  exact ⟨hq, h.nobody, l, hs.object, (hs.atRest hq hx few).idle h.nobody⟩

/-- Fewer stopped calls leave fewer starved readers. -/
theorem FewStopped.fewStarved {script : List Turn} (h : FewStopped key b script) :
    FewStarved key b script := by
  apply h.everyTurn.mono
  rintro b t ⟨hbefore, hafter⟩
  exact Nat.lt_of_le_of_lt (b.session.peak_le_waiting key t) (Nat.max_lt.mpr ⟨hbefore, hafter⟩)

/-- Whenever a disciplined script has come to a state without holds, one of the
calls that are stopped there returns when it is resumed. After three rounds in
which all stopped actors are resumed, in whatever order, no call is stopped and
the lock is idle. -/
theorem drains_out {s : Session} {script : List Turn} (fresh : s.Fresh key o)
    (disciplined : Disciplined key ⟨s, .none⟩ script)
    (fewStopped : FewStopped key ⟨s, .none⟩ script)
    (unheld : (after key ⟨s, .none⟩ script).holds = .none) :
    let b := after key ⟨s, .none⟩ script
    (¬ b.Quiet key → ∃ actor ∈ b.stoppedOn key, ∀ number turns,
        (b.session.step ⟨actor, number, .resume turns⟩).2.reply = .ok) ∧
      ∀ first second third,
        let b₁ := b.afterRound key first
        let b₂ := b₁.afterRound key second
        let b₃ := b₂.afterRound key third
        b.Covers key first → b₁.Covers key second → b₂.Covers key third →
          b₃.Idle key o := by
  intro b
  have hb : b.Unheld key o :=
    ⟨unheld, (sound_throughout fresh disciplined fewStopped.fewStarved).1.last, fewStopped.last⟩
  refine ⟨hb.exists_returns, ?_⟩
  intro first second third b₁ b₂ b₃ hfirst hsecond hthird
  obtain ⟨h₃, hquiet⟩ := ((hb.first_round hfirst).second_round hsecond).third_round hthird
  exact h₃.idle hquiet

/-- A reader holds the lock, one writer drains it and another waits for the flag.
A second reader runs out of patience and holds a third writer back. Then the
first reader leaves. -/
def standstill : List Turn :=
  [⟨0, 0, .waiting (.acquire .read)⟩, ⟨1, 0, .waiting (.acquire .write)⟩,
    ⟨2, 0, .waiting (.acquire .write)⟩, ⟨3, 0, .waiting (.acquire .read)⟩, ⟨3, 0, .resume 501⟩,
    ⟨4, 0, .waiting (.acquire .write)⟩, ⟨0, 0, .instant (.unlock .read)⟩]

/-- Each of the rounds is needed. -/
theorem drains_out_standstill :
    let b := after 0 ⟨.start (.bare .fresh), .none⟩ standstill
    let b₁ := b.afterRound 0 [(4, 1), (3, 1), (2, 2), (1, 1)]
    let b₂ := b₁.afterRound 0 [(4, 3), (2, 1), (3, 1)]
    let b₃ := b₂.afterRound 0 [(4, 1)]
    b.stoppedOn 0 = [4, 3, 2, 1] ∧ b₁.stoppedOn 0 = [2, 3, 4] ∧ b₂.stoppedOn 0 = [4] ∧
      b₃.Idle 0 (.bare .fresh) := by
  intro b b₁ b₂ b₃
  have fresh : (Session.start (.bare .fresh)).Fresh 0 (.bare .fresh) := Session.start_fresh rfl
  have disciplined : Disciplined 0 ⟨.start (.bare .fresh), .none⟩ standstill := by decide +kernel
  have fewStopped : FewStopped 0 ⟨.start (.bare .fresh), .none⟩ standstill := by decide +kernel
  have hdrained := (drains_out fresh disciplined fewStopped (by decide +kernel)).2
    [(4, 1), (3, 1), (2, 2), (1, 1)] [(4, 3), (2, 1), (3, 1)] [(4, 1)]
    (by decide +kernel) (by decide +kernel) (by decide +kernel)
  exact ⟨by decide +kernel, by decide +kernel, by decide +kernel, hdrained⟩

end ReaderWriter.Ledger
