import ReaderWriter.Proofs.Session.Soundness

/-!
# Turns while the barrier is up

A raised barrier stops a writer that has not passed it yet, however often the
writer is resumed, and it refuses every attempt at the write lock. So the flag
can only go to a writer that was waiting for it already. Such a writer leaves
the line when it takes the flag, and nobody joins the line meanwhile.

These facts are about single turns. What they add up to in the course of a
script is the matter of `ReaderWriter.Proofs.Bypass`.
-/

namespace ReaderWriter

/-! ## Writers that wait -/

namespace Lock

variable {l : Lock}

theorem write_of_barred (h : l.isBarred = true) : l.write = .pauseAt l .barrier := by
  rw [write, if_pos h]

theorem writeFlag_of_flag (h : l.flag = true) : l.writeFlag = .pauseAt l .flag := by
  rw [writeFlag, claim_of_flag h]

theorem writeDrain_meets (l : Lock) :
    l.writeDrain.Meets (fun _ place => place = .drain) fun _ _ => True := by
  rw [writeDrain]
  split
  · exact trivial
  · exact rfl

theorem writeFlag_meets (h : l.flag = false) :
    l.writeFlag.Meets (fun _ place => place = .drain) fun _ _ => True := by
  rw [writeFlag, claim_of_not_flag h]
  exact writeDrain_meets _

end Lock

namespace Call

variable {o : Object} {l : Lock} {place : WriteWait}

/-- A writer that does not get on stays where it is. -/
theorem goOn_write_stays (hl : o.lock? = some l) (hstay : place.resume l = .pauseAt l place)
    (turns : Nat) :
    ∃ t, goOn turns (.pauseAt o (.onLock (.write none place))) = some t ∧
      t.Meets (fun o' call => o' = o ∧ call = .onLock (.write none place)) fun _ _ => False := by
  refine ⟨_, goOn_settled ?_ turns, rfl, rfl⟩
  intro call hp
  cases hp
  have hsame : strideOnLock o (.pauseAt l (.write none place)) =
      .pauseAt (o.withLock l) (.onLock (.write none place)) := rfl
  rw [Object.withLock_self hl] at hsame
  rw [Stride.state_pauseAt, resume?_onLock hl, LockCall.resume, hstay]
  exact congrArg some hsame

/-- A writer that gets hold of the flag drains the readers from then on. -/
theorem goOn_write_drains (hl : o.lock? = some l)
    (hdrain : (place.resume l).Meets (fun _ place => place = .drain) fun _ _ => True)
    (turns : Nat) :
    ∃ t, goOn (turns + 1) (.pauseAt o (.onLock (.write none place))) = some t ∧
      t.Meets (fun _ call => call = .onLock (.write none .drain)) fun _ _ => True := by
  refine ⟨_, goOn_write turns hl, ?_⟩
  rw [meets_strideOnLock, LockCall.resume, Stride.Meets.relabel_iff]
  apply hdrain.mono
  · intro _ place' hplace
    rw [hplace]
  · exact fun _ _ => id

/-- A reader moves the flag neither when it waits nor when it gets in. -/
theorem flag_of_read_meets {h : Holds} {owners raisers raisers' readers p : Nat}
    {went : Stride Object Call Ending}
    (hm : went.Meets (Pending o h none .read owners raisers p)
      (Granted o h none .read owners raisers))
    (hb : l.Balanced readers (h.writes + owners) raisers') :
    ∃ m, went.state = o.withLock m ∧ m.flag = l.flag := by
  have hsame : ∀ {m : Lock} {readers raisers : Nat},
      m.Balanced readers (h.writes + owners) raisers → m.flag = l.flag := by
    intro m readers raisers hbm
    rw [Bool.eq_iff_iff, hbm.flag_iff, hb.flag_iff]
  obtain ⟨call, -, m, hstate, hstands, hbm⟩ | ⟨ending, -, m, hstate, -, -, hbm⟩ := hm.cases
  · have hidle : call.isDraining = false := by
      rw [hstands.2]
      rfl
    rw [hidle] at hbm
    exact ⟨m, hstate, hsame hbm⟩
  · exact ⟨m, hstate, hsame hbm⟩

end Call

/-- An operation that never waits does not take the flag past a raised barrier. -/
theorem Instant.run_flag_of_barred {what : Instant} {op : Operation} {l : Lock}
    (hop : Operation.ofInstant? what = some op) (h : l.isBarred = true)
    (hf : l.flag = false) : (what.run l).1.flag = false := by
  cases what with
  | tryAcquire mode =>
      cases mode with
      | read =>
          change (l.tryRead.map id Reply.ofAttempt).1.flag = false
          rw [Lock.tryRead]
          split
          · exact hf
          · exact hf
      | write =>
          change (l.tryWrite.map id Reply.ofAttempt).1.flag = false
          rw [Lock.tryWrite_of_barred h]
          exact hf
  | unlock mode =>
      cases mode with
      | read => exact hf
      | write =>
          change (l.release.map id Reply.ofCheck).1.flag = false
          rw [Lock.release, if_neg (ne_true_of_eq_false hf)]
          exact hf
  | tryUpgrade =>
      change (l.tryUpgrade.map id Reply.ofAttempt).1.flag = false
      rw [Lock.tryUpgrade_of_barred h]
      exact hf
  | downgrade =>
      change (l.arrive.release.map id Reply.ofCheck).1.flag = false
      rw [Lock.release, Lock.arrive_flag, if_neg (ne_true_of_eq_false hf)]
      exact hf
  | _ => cases hop

/-! ## Where callers stand -/

namespace Stopped

/-- The call is a writer's that is past the barrier and waits for the flag. -/
def isInLine (c : Stopped) : Bool :=
  match c.call with
  | .onLock (.write _ .flag) => true
  | _ => false

/-- The call is a writer's that waits for the barrier to come down. -/
def isHeldBack (c : Stopped) : Bool :=
  match c.call with
  | .onLock (.write _ .barrier) => true
  | _ => false

end Stopped

namespace Session

/-- The object has a lock whose flag is taken. -/
def flag (s : Session) (key : Nat) : Bool :=
  ((s.objects.get? key).bind Object.lock?).any Lock.flag

theorem flag_eq {s : Session} {key : Nat} {o : Object} {l : Lock}
    (ho : s.objects.get? key = some o) (hl : o.lock? = some l) : s.flag key = l.flag := by
  rw [flag, ho, Option.bind_some, hl, Option.any_some]

end Session

/-! ## One turn -/

namespace Ledger

/-- The flag is clear before the turn and set after it. -/
def Takes (key : Nat) (b : Ledger) (t : Turn) : Prop :=
  b.session.flag key = false ∧ (b.next key t).session.flag key = true

instance (key : Nat) (b : Ledger) (t : Turn) : Decidable (b.Takes key t) :=
  inferInstanceAs (Decidable (_ ∧ _))

/-- What a raised barrier holds back in a turn. -/
structure HoldsBack (key : Nat) (b : Ledger) (t : Turn) : Prop where
  /-- The flag goes to a writer in line, which leaves the line. -/
  taker : b.Takes key t → (∃ turns, t.step = .resume turns) ∧
    b.session.Stands key t.actor Stopped.isInLine ∧
    ¬ (b.next key t).session.Stands key t.actor Stopped.isInLine
  /-- Nobody joins the line. -/
  line : ∀ a, (b.next key t).session.Stands key a Stopped.isInLine →
    b.session.Stands key a Stopped.isInLine
  /-- A writer that waits for the barrier goes on waiting for it. -/
  held : ∀ a, b.session.Stands key a Stopped.isHeldBack →
    (b.next key t).session.Stands key a Stopped.isHeldBack
  /-- A writer that begins waits for the barrier. -/
  begun : b.session.Concerns key t → t.step = .waiting (.acquire .write) →
    (b.next key t).session.Stands key t.actor Stopped.isHeldBack
  /-- An attempt at the write lock fails and changes nothing. -/
  refused : b.session.Concerns key t →
    t.step = .instant (.tryAcquire .write) ∨ t.step = .instant .tryUpgrade →
      (b.session.step t).2.reply = .busy .barred ∧
        (b.next key t).session.objects.get? key = b.session.objects.get? key

namespace HoldsBack

variable {key actor pauses : Nat} {b : Ledger} {o : Object} {l : Lock} {t : Turn}
variable {P : Stopped → Prop}

/-- A turn that does not concern the lock holds everybody where they are. -/
theorem pass (h : Sound key P b o l) (hc : ¬ b.session.Concerns key t) : HoldsBack key b t := by
  have hagrees : b.session.Agrees key (b.next key t).session :=
    h.unguarded.take_agrees hc
  have hflag : (b.next key t).session.flag key = b.session.flag key := by
    rw [Session.flag, hagrees.object]
    rfl
  refine ⟨?_, ?_, ?_, ?_, ?_⟩
  · intro htakes
    have hset := htakes.2
    rw [hflag, htakes.1] at hset
    cases hset
  · intro a ha
    exact hagrees.stands_iff.mp ha
  · intro a ha
    exact hagrees.stands_iff.mpr ha
  · intro hyes
    exact absurd hyes hc
  · intro hyes
    exact absurd hyes hc

theorem instant {what : Instant} {op : Operation} (h : Sound key P b o l)
    (hbar : l.isBarred = true) (hfree : b.session.stopped.get? actor = none)
    (hop : Operation.ofInstant? what = some op) :
    HoldsBack key b ⟨actor, key, .instant what⟩ := by
  obtain ⟨hnext, hreply⟩ := next_instant h.object h.lock hfree hop
  have hobject : (b.next key ⟨actor, key, .instant what⟩).session.objects.get? key =
      some (o.withLock (what.run l).1) := by
    rw [hnext]
    exact Registry.get?_insert_self _ _ _
  have hsame : what.run l = (l, .busy .barred) →
      (b.session.step ⟨actor, key, .instant what⟩).2.reply = .busy .barred ∧
        (b.next key ⟨actor, key, .instant what⟩).session.objects.get? key =
          b.session.objects.get? key := by
    intro hrun
    rw [hreply, hobject, hrun, h.object]
    exact ⟨rfl, congrArg some (Object.withLock_self h.lock)⟩
  refine ⟨?_, ?_, ?_, ?_, ?_⟩
  · rintro ⟨hclear, hset⟩
    rw [Session.flag_eq h.object h.lock] at hclear
    rw [Session.flag_eq hobject (Object.lock?_withLock_of h.lock _),
      Instant.run_flag_of_barred hop hbar hclear] at hset
    cases hset
  · intro a ha
    rw [hnext] at ha
    exact ha
  · intro a ha
    rw [hnext]
    exact ha
  · intro _ hstep
    cases hstep
  · intro _ hstep
    apply hsame
    obtain hstep | hstep := hstep
    · cases hstep
      change l.tryWrite.map id Reply.ofAttempt = _
      rw [Lock.tryWrite_of_barred hbar]
      rfl
    · cases hstep
      change l.tryUpgrade.map id Reply.ofAttempt = _
      rw [Lock.tryUpgrade_of_barred hbar]
      rfl

/-- The end of a stride holds everybody else where they are, so that only the
actor of the turn matters. -/
theorem settle {went : Stride Object Call Ending}
    (hsession : (b.next key t).session = (b.session.settle t.actor key pauses went).1)
    (hinstant : ∀ what, t.step ≠ .instant what)
    (taker : b.Takes key t → (∃ turns, t.step = .resume turns) ∧
      b.session.Stands key t.actor Stopped.isInLine ∧
      ∀ call, went.progress = .paused call → Stopped.isInLine ⟨key, pauses, call⟩ = false)
    (line : ∀ call, went.progress = .paused call → Stopped.isInLine ⟨key, pauses, call⟩ = true →
      b.session.Stands key t.actor Stopped.isInLine)
    (held : b.session.Stands key t.actor Stopped.isHeldBack ∨
        t.step = .waiting (.acquire .write) →
      ∃ call, went.progress = .paused call ∧ Stopped.isHeldBack ⟨key, pauses, call⟩ = true) :
    HoldsBack key b t := by
  refine ⟨?_, ?_, ?_, ?_, ?_⟩
  · intro htakes
    obtain ⟨hresume, hline, hleft⟩ := taker htakes
    refine ⟨hresume, hline, ?_⟩
    rw [hsession, Session.stands_settle_self]
    rintro ⟨call, hp, hcall⟩
    rw [hleft call hp] at hcall
    cases hcall
  · intro a ha
    rw [hsession] at ha
    by_cases hactor : a = t.actor
    · subst hactor
      obtain ⟨call, hp, hcall⟩ := (Session.stands_settle_self went).mp ha
      exact line call hp hcall
    · exact (Session.stands_settle_of_ne hactor went).mp ha
  · intro a ha
    rw [hsession]
    by_cases hactor : a = t.actor
    · subst hactor
      exact (Session.stands_settle_self went).mpr (held (.inl ha))
    · exact (Session.stands_settle_of_ne hactor went).mpr ha
  · intro _ hstep
    rw [hsession]
    exact (Session.stands_settle_self went).mpr (held (.inr hstep))
  · intro _ hstep
    obtain hstep | hstep := hstep
    · exact absurd hstep (hinstant _)
    · exact absurd hstep (hinstant _)

/-- A reader's stride. -/
theorem read {went : Stride Object Call Ending} {owners raisers raisers' readers : Nat}
    (h : Sound key P b o l)
    (hsession : (b.next key t).session = (b.session.settle t.actor key pauses went).1)
    (hinstant : ∀ what, t.step ≠ .instant what) (hbegun : t.step ≠ .waiting (.acquire .write))
    (hheld : ¬ b.session.Stands key t.actor Stopped.isHeldBack)
    (hm : went.Meets (Call.Pending o b.holds none .read owners raisers pauses)
      (Call.Granted o b.holds none .read owners raisers))
    (hb : l.Balanced readers (b.holds.writes + owners) raisers') : HoldsBack key b t := by
  obtain ⟨m, hstate, hsame⟩ := Call.flag_of_read_meets hm hb
  have hread : ∀ call, went.progress = .paused call →
      Stopped.isInLine ⟨key, pauses, call⟩ = false := by
    intro call hp
    obtain ⟨_, -, ⟨-, rfl⟩, -⟩ := hm.of_paused hp
    rfl
  refine settle hsession hinstant ?_ ?_ ?_
  · rintro ⟨hclear, hset⟩
    have hobject : (b.next key t).session.objects.get? key = some (o.withLock m) := by
      rw [hsession, Session.settle_objects, Registry.get?_insert_self, hstate]
    rw [Session.flag_eq hobject (Object.lock?_withLock_of h.lock m), hsame,
      ← Session.flag_eq h.object h.lock, hclear] at hset
    cases hset
  · intro call hp hline
    rw [hread call hp] at hline
    cases hline
  · intro hor
    obtain hor | hor := hor
    · exact absurd hor hheld
    · exact absurd hor hbegun

/-- A writer that stays where it is. -/
theorem stays {went : Stride Object Call Ending} {place : WriteWait} (h : Sound key P b o l)
    (hsession : (b.next key t).session = (b.session.settle t.actor key pauses went).1)
    (hinstant : ∀ what, t.step ≠ .instant what)
    (hm : went.Meets (fun o' call => o' = o ∧ call = .onLock (.write none place))
      fun _ _ => False)
    (hline : place = .flag → b.session.Stands key t.actor Stopped.isInLine)
    (hheld : b.session.Stands key t.actor Stopped.isHeldBack ∨
      t.step = .waiting (.acquire .write) → place = .barrier) : HoldsBack key b t := by
  obtain ⟨call, hp, hstate, hcall⟩ | ⟨-, -, hfalse⟩ := hm.cases
  · refine settle hsession hinstant ?_ ?_ ?_
    · rintro ⟨hclear, hset⟩
      have hobject : (b.next key t).session.objects.get? key = some o := by
        rw [hsession, Session.settle_objects, Registry.get?_insert_self, hstate]
      rw [Session.flag_eq hobject h.lock, ← Session.flag_eq h.object h.lock, hclear] at hset
      cases hset
    · intro call' hp' hin
      rw [hp] at hp'
      cases hp'
      subst hcall
      cases place with
      | flag => exact hline rfl
      | barrier => cases hin
      | drain => cases hin
    · intro hor
      refine ⟨call, hp, ?_⟩
      rw [hcall, hheld hor]
      rfl
  · exact hfalse.elim

/-- A resumed writer that drains the readers if it has to wait once more. -/
theorem drains {went : Stride Object Call Ending} {number turns : Nat}
    (hsession : (b.next key ⟨actor, number, .resume turns⟩).session =
      (b.session.settle actor key pauses went).1)
    (hm : went.Meets (fun _ call => call = .onLock (.write none .drain)) fun _ _ => True)
    (hline : b.session.flag key = false → b.session.Stands key actor Stopped.isInLine)
    (hheld : ¬ b.session.Stands key actor Stopped.isHeldBack) :
    HoldsBack key b ⟨actor, number, .resume turns⟩ := by
  have hdrain : ∀ call, went.progress = .paused call →
      Stopped.isInLine ⟨key, pauses, call⟩ = false := by
    intro call hp
    rw [hm.of_paused hp]
    rfl
  refine settle hsession (by simp) ?_ ?_ ?_
  · intro htakes
    exact ⟨⟨turns, rfl⟩, hline htakes.1, hdrain⟩
  · intro call hp hin
    rw [hdrain call hp] at hin
    cases hin
  · intro hor
    obtain hor | hor := hor
    · exact absurd hor hheld
    · cases hor

section resumed

variable {c : Stopped} {place : WriteWait} {number turns : Nat}

/-- A resumed writer that cannot get on. -/
theorem resume_stays (h : Sound c.object P b o l)
    (hget : b.session.stopped.get? actor = some c) (hcall : c.call = .onLock (.write none place))
    (hstay : place.resume l = .pauseAt l place)
    (hline : place = .flag → b.session.Stands c.object actor Stopped.isInLine)
    (hheld : b.session.Stands c.object actor Stopped.isHeldBack → place = .barrier) :
    HoldsBack c.object b ⟨actor, number, .resume turns⟩ := by
  obtain ⟨went, hgo, hm⟩ := Call.goOn_write_stays h.lock hstay (max turns 1)
  rw [← hcall] at hgo
  have hsession := congrArg Ledger.session (next_resume number h.object hget hgo).1
  apply stays h hsession (by simp) hm hline
  intro hor
  obtain hor | hor := hor
  · exact hheld hor
  · cases hor

/-- A resumed writer that gets hold of the flag, or has it already. -/
theorem resume_drains (h : Sound c.object P b o l)
    (hget : b.session.stopped.get? actor = some c) (hcall : c.call = .onLock (.write none place))
    (hdrain : (place.resume l).Meets (fun _ place => place = .drain) fun _ _ => True)
    (hline : b.session.flag c.object = false → b.session.Stands c.object actor Stopped.isInLine)
    (hheld : ¬ b.session.Stands c.object actor Stopped.isHeldBack) :
    HoldsBack c.object b ⟨actor, number, .resume turns⟩ := by
  obtain ⟨n, hn⟩ := Call.exists_turns turns
  obtain ⟨went, hgo, hm⟩ := Call.goOn_write_drains h.lock hdrain n
  rw [← hcall, ← hn] at hgo
  have hsession := congrArg Ledger.session (next_resume number h.object hget hgo).1
  exact drains hsession hm hline hheld

/-- A writer that is resumed while the barrier is up. It has to wait for the
barrier still, or it is in line, or it owns the flag already. -/
theorem resume_write (h : Sound c.object P b o l) (hbar : l.isBarred = true)
    (hget : b.session.stopped.get? actor = some c)
    (hcall : c.call = .onLock (.write none place)) :
    HoldsBack c.object b ⟨actor, number, .resume turns⟩ := by
  have hline := Session.stands_iff (p := Stopped.isInLine) hget rfl
  have hheld := Session.stands_iff (p := Stopped.isHeldBack) hget rfl
  rw [Stopped.isInLine, hcall] at hline
  rw [Stopped.isHeldBack, hcall] at hheld
  cases place with
  | barrier =>
      exact resume_stays h hget hcall (Lock.write_of_barred hbar) (by simp) fun _ => rfl
  | flag =>
      have hnot : ¬ b.session.Stands c.object actor Stopped.isHeldBack := by
        rw [hheld]
        simp
      cases hf : l.flag with
      | true =>
          exact resume_stays h hget hcall (Lock.writeFlag_of_flag hf) (fun _ => hline.mpr rfl)
            fun hyes => absurd hyes hnot
      | false =>
          exact resume_drains h hget hcall (Lock.writeFlag_meets hf) (fun _ => hline.mpr rfl) hnot
  | drain =>
      have hb := h.balanced_of_stopped hget rfl
      rw [hcall] at hb
      have hset : b.session.flag c.object = true := by
        rw [Session.flag_eq h.object h.lock]
        exact hb.flag_eq_true
      apply resume_drains h hget hcall l.writeDrain_meets
      · intro hclear
        rw [hset] at hclear
        cases hclear
      · rw [hheld]
        simp

end resumed

end HoldsBack

namespace Sound

variable {key : Nat} {b : Ledger} {o : Object} {l : Lock} {t : Turn}

/-- While the barrier is up, every permitted turn holds writers back. -/
theorem holdsBack (h : Sound key Stopped.InOperation b o l) (hbar : l.isBarred = true)
    (hp : b.Permits key t) (few : b.session.peak key Stopped.isStarved t < 2 ^ 31) :
    HoldsBack key b t := by
  by_cases hc : b.session.Concerns key t
  · obtain ⟨actor, what, op, rfl, hfree, hop, -⟩ | ⟨actor, mode, rfl, hfree⟩ |
      ⟨actor, number, turns, c, rfl, hget, hobject⟩ := hp.cases hc
    · exact .instant h hbar hfree hop
    · have hsession := congrArg Ledger.session (next_acquire mode h.object h.lock hfree).1
      cases mode with
      | read =>
          have hb := h.balanced_of_free hfree
          exact .read h hsession (by simp) (by simp) (Session.not_stands_of_free hfree)
            (Call.acquire_meets .read hb) hb
      | write =>
          have hm : (Call.strideOnLock o (LockCall.acquire none .write l)).Meets
              (fun o' call => o' = o ∧ call = .onLock (.write none .barrier))
              fun _ _ => False := by
            rw [Call.meets_strideOnLock, LockCall.acquire, Stride.Meets.relabel_iff,
              Lock.write_of_barred hbar]
            exact ⟨Object.withLock_self h.lock, rfl⟩
          exact .stays h hsession (by simp) hm (by simp) fun _ => rfl
    · subst hobject
      obtain ⟨mode, hop⟩ := h.calls actor c hget rfl
      have hb := h.balanced_of_stopped hget rfl
      cases mode with
      | read =>
          obtain ⟨went, hgo, hm⟩ := h.resume_meets (fun _ => id) hget rfl hop
            (h.room_now hget rfl few) (room_later few)
          have hsession := congrArg Ledger.session (next_resume number h.object hget hgo).1
          rw [hop.2] at hb
          refine .read h hsession (by simp) (by simp) ?_ hm hb
          rw [Session.stands_iff hget rfl, Stopped.isHeldBack, hop.2]
          simp
      | write =>
          obtain ⟨place, hcall⟩ := hop
          exact .resume_write h hbar hget hcall
  · exact .pass h hc

end Sound

end Ledger

end ReaderWriter
