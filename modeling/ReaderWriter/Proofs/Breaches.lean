import ReaderWriter.Proofs.Payload.Misuse
import ReaderWriter.Proofs.Session.Teardown

/-!
# The breaches of the contract

A turn is answered with a violation just if its actor breaks the contract of a lock: it
gives back or turns down the flag that nobody has, it lowers the barrier that is not up,
be it in so many words or at the end of its wait for a read lock, or it tears down a lock
that somebody holds. This is so in every state of the words, whether a script that keeps
to the contract gets there or not.

What is done before the breach is found stays done, and nothing else is. So a breach is
listed here with the session it leaves.
-/

namespace ReaderWriter

/-- The operation on its lock that a use of a guard comes to, if there is one. -/
def GuardUse.instant? : Mode → GuardUse → Option Instant
  | .read, .upgrade => some .tryUpgrade
  | .write, .downgrade => some .downgrade
  | mode, .release => some (.unlock mode)
  | _, _ => none

/-- The lock that is checked when an object is torn down in a way that it allows. -/
def TearDown.lock? : TearDown → Object → Option Lock
  | .drop, .bare l => some l
  | .intoInner, .vector l _ => some l
  | .finish, .payload p => p.lock?
  | _, _ => none

section

variable {use : GuardUse} {how : TearDown} {o : Object} {l m : Lock} {values : List Int}
variable {mode : Mode} {what : Instant} {breach : Violation} {r : GuardOutcome}

/-- A guard that is used in breach of the contract is gone. -/
theorem GuardUse.run?_misuse (hwhat : use.instant? mode = some what)
    (hmisuse : l.Misuse what breach m) :
    use.run? l values mode = some ⟨m, values, none, .violated breach⟩ := by
  cases hmisuse with
  | unlock free =>
      cases use <;> cases mode <;> cases hwhat
      simp [run?, Lock.unlock, Lock.release, free, Reply.ofCheck]
  | release free => cases use <;> cases mode <;> cases hwhat
  | downgrade free =>
      cases use <;> cases mode <;> cases hwhat
      simp [run?, Lock.downgrade_eq, free]
  | lower down => cases use <;> cases mode <;> cases hwhat

theorem GuardUse.of_run?_violated (hrun : use.run? l values mode = some r)
    (hreply : r.reply = .violated breach) :
    ∃ what, use.instant? mode = some what ∧ l.Misuse what breach r.lock ∧
      r = ⟨r.lock, values, none, .violated breach⟩ := by
  cases use with
  | release =>
      rw [run?] at hrun
      cases hrun
      have hunlock : (Instant.unlock mode).run l = ((l.unlock mode).1, .violated breach) :=
        Prod.ext rfl hreply
      exact ⟨_, by cases mode <;> rfl, Lock.misuse_iff.mpr hunlock, by rw [← hreply]⟩
  | downgrade =>
      cases mode with
      | read => cases hrun
      | write =>
          rw [run?] at hrun
          split at hrun
          · cases hrun
            cases hreply
          · next m found hdowngrade =>
              cases hrun
              cases hreply
              obtain ⟨free, rfl, rfl⟩ := Lock.downgrade_eq_error_iff.mp hdowngrade
              exact ⟨.downgrade, rfl, .downgrade free, rfl⟩
  | upgrade =>
      cases mode with
      | write => cases hrun
      | read =>
          rw [run?] at hrun
          split at hrun <;> cases hrun <;> cases hreply
  | _ => cases mode <;> cases hrun <;> cases hreply

/-- The check at the end of a lock decides what the teardown answers. -/
theorem TearDown.close_destroy_iff {log : List Record} {reply : Reply}
    (hreply : reply ≠ .violated breach) : close l.destroy reply = (.violated breach, log) ↔
      l.checkReleased = .error breach ∧ log = [] := by
  rw [close, Lock.destroy_eq]
  cases l.checkReleased with
  | ok _ => simp [hreply]
  | error found => simp [eq_comm]

theorem TearDown.close_finish_iff {p : Payload} {log : List Record} :
    close p.finish .ok = (.violated breach, log) ↔
      ∃ l, p.lock? = some l ∧ l.checkReleased = .error breach ∧ log = [] := by
  obtain ⟨scheme, store⟩ := p
  cases scheme with
  | writerFirst lock =>
      rw [close, Payload.finish_writerFirst]
      simp only [Payload.lock?, Option.some.injEq, exists_eq_left']
      cases lock.checkReleased with
      | ok _ => simp
      | error found => simp [eq_comm]
  | _ => simp [Payload.lock?, close, Payload.finish, Stride.done]

/-- A teardown that is not in order has found a holder in the check of the lock. -/
theorem TearDown.run?_violated_iff {log : List Record} :
    how.run? o = some (.violated breach, log) ↔
      ∃ l, how.lock? o = some l ∧ l.checkReleased = .error breach ∧ log = [] := by
  cases how with
  | drop => cases o <;> simp [run?, lock?, close_destroy_iff]
  | dropUnwinding => cases o <;> simp [run?, lock?]
  | intoInner => cases o <;> simp [run?, lock?, close_destroy_iff]
  | finish => cases o <;> simp [run?, lock?, close_finish_iff]

end

namespace Session

variable {s : Session} {actor key pauses : Nat} {o : Object} {step : Step} {breach : Violation}
variable {t : Stride Object Call Ending}

/-- The turns that break the contract, and what they come to. -/
inductive Breach (s : Session) : Turn → Session × Reply × List Record → Prop
  /-- An operation on a lock is not in order. -/
  | operation (actor key : Nat) (what : Instant) (o : Object) (l m : Lock) (breach : Violation)
      (free : s.stopped.get? actor = none) (there : s.objects.get? key = some o)
      (lock : o.lock? = some l) (misuse : l.Misuse what breach m) :
      Breach s ⟨actor, key, .instant what⟩ (s.leaving key o m (.violated breach))
  /-- Nor is the one that a use of a guard comes to. -/
  | guard (actor key : Nat) (name : String) (use : GuardUse) (g : Guard) (what : Instant)
      (l m l' : Lock) (values values' : List Int) (breach : Violation)
      (free : s.stopped.get? actor = none) (on : s.objects.get? key = some (.vector l' values'))
      (alive : s.guards.get? name = some g)
      (there : s.objects.get? g.object = some (.vector l values))
      (asked : use.instant? g.mode = some what) (misuse : l.Misuse what breach m) :
      Breach s ⟨actor, key, .guard name use⟩
        ((s.withObject g.object (.vector m values)).withGuard name none, .violated breach, [])
  /-- A reader gets in that has raised the barrier, and the barrier is not up. -/
  | reader (actor number turns key pauses : Nat) (guard? : Option String) (w : ReadWait)
      (o : Object) (l : Lock)
      (stopped : s.stopped.get? actor = some ⟨key, pauses, .onLock (.read guard? w)⟩)
      (there : s.objects.get? key = some o) (lock : o.lock? = some l)
      (enters : l.flag = false) (raised : w.next.raised = true)
      (down : (w.roused l).barrier ≤ 0) :
      Breach s ⟨actor, number, .resume turns⟩
        ({ s.withObject key (o.withLock
              { w.roused l with
                ingress := l.ingress + 1, barrier := (w.roused l).barrier - 1 }) with
            stopped := s.stopped.erase actor },
          .violated .barrierBelowZero, w.notice)
  /-- An access to a payload goes on with a lock that others have misused. -/
  | access (actor number turns key pauses : Nat) (call : PayloadCall) (p q : Payload)
      (breach : Violation) (log : List Record)
      (stopped : s.stopped.get? actor = some ⟨key, pauses, .onPayload call⟩)
      (there : s.objects.get? key = some (.payload p))
      (broken : p.breach? call.place = some (q, breach, log)) :
      Breach s ⟨actor, number, .resume turns⟩
        ({ s.withObject key (.payload q) with stopped := s.stopped.erase actor },
          .violated breach, log)
  /-- A lock is torn down that is held. A writer is found before readers are. -/
  | teardown (actor key : Nat) (how : TearDown) (o : Object) (l : Lock)
      (free : s.stopped.get? actor = none) (there : s.objects.get? key = some o)
      (unused : s.inUse key = false) (lock : how.lock? o = some l)
      (held : l.flag = true ∨ l.ingress ≠ l.egress) :
      Breach s ⟨actor, key, .tearDown how⟩
        ({ s with objects := s.objects.erase key },
          .violated (if l.flag then .destroyedWriteLocked else .destroyedWithReaders), [])

/-- A call that has broken the contract has ended. -/
theorem settle_of_breach {o' : Object} {log : List Record}
    (h : t.breach? = some (o', breach, log)) : s.settle actor key pauses t =
      ({ s.withObject key o' with stopped := s.stopped.erase actor }, .violated breach, log) := by
  obtain ⟨m, log', progress⟩ := t
  cases progress <;> cases h
  rfl

theorem breach_of_settle (h : (s.settle actor key pauses t).2.1 = .violated breach) :
    t.breach? = some (t.state, breach, t.log) := by
  obtain ⟨m, log', progress⟩ := t
  rw [settle_reply] at h
  cases progress with
  | paused call => cases h
  | finished ending => cases ending <;> cases h
  | violated breach' =>
      cases h
      rfl

/-- A resumed call breaks what is foretold. -/
theorem take_resume_breach {c : Stopped} {o' : Object} {log : List Record} (number turns : Nat)
    (hc : s.stopped.get? actor = some c) (ho : s.objects.get? c.object = some o)
    (hbroken : c.call.breach? o = some (o', breach, log)) :
    s.take ⟨actor, number, .resume turns⟩ =
      ({ s.withObject c.object o' with stopped := s.stopped.erase actor },
        .violated breach, log) := by
  obtain ⟨n, hn⟩ := Call.exists_turns turns
  have hgo := Call.goOn_breach? n o c.call
  rw [← hn, hbroken] at hgo
  obtain ⟨went, hwent, hbreach⟩ := Option.bind_eq_some_iff.mp hgo
  rw [take_goOn number ho hc hwent, settle_of_breach hbreach]

/-- Every breach is answered with its violation. -/
theorem Breach.take_eq {turn : Turn} {u : Session × Reply × List Record} (h : s.Breach turn u) :
    s.take turn = u ∧ ∃ breach, u.2.1 = .violated breach := by
  refine ⟨?_, by cases h <;> exact ⟨_, rfl⟩⟩
  cases h with
  | operation actor key what o l m breach free there lock misuse =>
      rw [take_instant what free there lock, Lock.misuse_iff.mp misuse]
  | guard actor key name use g what l m l' values values' breach free on alive there asked misuse =>
      have hrun : use.run? l values g.mode = some ⟨m, values, none, .violated breach⟩ :=
        GuardUse.run?_misuse asked misuse
      rw [take_of_free free on rfl, act]
      simp only [useGuard, alive, there, hrun]
      rfl
  | reader actor number turns key pauses guard? w o l stopped there lock enters raised down =>
      refine take_resume_breach number turns stopped there ?_
      rw [Call.breach?_onLock lock, LockCall.breach?, ReadWait.breach?,
        if_pos ⟨enters, raised, down⟩]
      rfl
  | access actor number turns key pauses call p q breach log stopped there broken =>
      refine take_resume_breach number turns stopped there ?_
      rw [Call.breach?, broken]
      rfl
  | teardown actor key how o l free there unused lock held =>
      refine take_tearDown free there unused (TearDown.run?_violated_iff.mpr ⟨l, lock, ?_, rfl⟩)
      exact Lock.checkReleased_eq_error_iff.mpr ⟨rfl, held⟩

/-- A call that begins on a lock breaks nothing up to its first pause. -/
theorem launch_onLock_kept {u : Stride Lock LockCall Ending} {wait : Lock → LockCall → Prop}
    (h : u.Meets wait fun _ _ => True) :
    (s.launch actor key (Call.strideOnLock o u)).2.1 ≠ .violated breach := by
  have hsafe : (Call.strideOnLock o u).Meets (fun _ _ => True) fun _ _ => True :=
    Call.meets_strideOnLock.mpr (h.mono (fun _ _ _ => trivial) fun _ _ => id)
  intro hreply
  cases (breach_of_settle hreply).symm.trans (Stride.foretold_none_iff.mpr hsafe).breach

theorem launch_onPayload_kept {u : Stride Payload PayloadCall Ending}
    {wait : Payload → PayloadCall → Prop} (h : u.Meets wait fun _ _ => True) :
    (s.launch actor key (Call.strideOnPayload u)).2.1 ≠ .violated breach := by
  have hsafe : (Call.strideOnPayload u).Meets (fun _ _ => True) fun _ _ => True :=
    Call.meets_strideOnPayload.mpr (h.mono (fun _ _ _ => trivial) fun _ _ => id)
  intro hreply
  cases (breach_of_settle hreply).symm.trans (Stride.foretold_none_iff.mpr hsafe).breach

theorem makeGuard_kept {l : Lock} {name : String} {mode : Mode} :
    (s.makeGuard actor key o l name mode).2.1 ≠ .violated breach := by
  rw [makeGuard]
  split
  · exact fun h => by cases h
  · exact launch_onLock_kept (LockCall.acquire_kept _ mode l)

theorem tryGuard_kept {l : Lock} {name : String} {mode : Mode} :
    (s.tryGuard key o l name mode).2.1 ≠ .violated breach := by
  rw [tryGuard]
  split
  · exact fun h => by cases h
  · split <;> exact fun h => by cases h

theorem breach_of_useGuard {l' : Lock} {values' : List Int} {name : String} {use : GuardUse}
    (free : s.stopped.get? actor = none) (on : s.objects.get? key = some (.vector l' values'))
    (h : (s.useGuard name use).2.1 = .violated breach) :
    s.Breach ⟨actor, key, .guard name use⟩ (s.useGuard name use) := by
  -- The answer and the session that is left are one outcome, and are opened together.
  revert h
  rw [useGuard]
  split
  · exact fun h => by cases h
  · next g alive =>
      split
      · next l values there =>
          split
          · next r hrun =>
              intro hreply
              obtain ⟨what, asked, misuse, hr⟩ := GuardUse.of_run?_violated hrun hreply
              rw [hr]
              exact .guard actor key name use g what l r.lock l' values values' breach free on alive
                there asked misuse
          · exact fun h => by cases h
      · exact fun h => by cases h

/-- What a step on an object comes to that is answered with a violation. -/
theorem breach_of_act (free : s.stopped.get? actor = none) (there : s.objects.get? key = some o)
    (h : (s.act actor key o step).2.1 = .violated breach) :
    s.Breach ⟨actor, key, step⟩ (s.act actor key o step) := by
  cases step with
  | instant what =>
      cases hl : o.lock? with
      | none =>
          rw [act, onLock, hl] at h
          cases h
      | some l =>
          rw [act, onLock, hl] at h ⊢
          have hrun : what.run l = ((what.run l).1, .violated breach) := Prod.ext rfl h
          have hbreach := Breach.operation actor key what o l _ breach free there hl
            (Lock.misuse_iff.mpr hrun)
          rw [leaving, ← h] at hbreach
          exact hbreach
  | waiting what =>
      cases hl : o.lock? with
      | none =>
          rw [act, onLock, hl] at h
          cases h
      | some l =>
          rw [act, onLock, hl] at h
          refine absurd h ?_
          cases what with
          | acquire mode => exact launch_onLock_kept (LockCall.acquire_kept none mode l)
          | awaitEmpty => exact launch_onLock_kept (LockCall.untilEmpty_kept l)
          | awaitLowered => exact launch_onLock_kept (LockCall.untilLowered_kept l)
  | tearDown how =>
      cases hu : s.inUse key with
      | true =>
          rw [act, hu] at h
          cases h
      | false =>
          cases hrun : how.run? o with
          | none =>
              rw [act, hu, hrun] at h
              cases h
          | some outcome =>
              obtain ⟨reply, log⟩ := outcome
              rw [act, hu, hrun] at h ⊢
              obtain rfl : reply = .violated breach := h
              obtain ⟨l, hlock, hcheck, rfl⟩ := TearDown.run?_violated_iff.mp hrun
              obtain ⟨rfl, held⟩ := Lock.checkReleased_eq_error_iff.mp hcheck
              exact .teardown actor key how o l free there hu hlock held
  | read name =>
      cases o with
      | bare l => cases h
      | vector l values => exact absurd h makeGuard_kept
      | payload p => exact absurd h (launch_onPayload_kept (PayloadCall.enter_kept p _))
  | write name value =>
      cases o with
      | bare l => cases h
      | vector l values => exact absurd h makeGuard_kept
      | payload p => exact absurd h (launch_onPayload_kept (PayloadCall.enter_kept p _))
  | tryGuard name mode =>
      cases o with
      | vector l values => exact absurd h tryGuard_kept
      | _ => cases h
  | guard name use =>
      cases o with
      | vector l values => exact breach_of_useGuard free there h
      | _ => cases h
  | walk request =>
      cases o with
      | payload p =>
          cases hdraw : request.draw? with
          | none =>
              rw [act, hdraw] at h
              cases h
          | some plan =>
              rw [act, hdraw] at h
              exact absurd h (launch_onPayload_kept (PayloadCall.walkThrough_kept p plan))
      | _ => cases h
  | isLocked => cases o <;> cases h
  | isWriteLocked => cases o <;> cases h
  | name => cases o <;> cases h
  | resume turns => cases h
  | create design => cases h
  | unknown => cases h

/-- A resumed call that is foretold a breach is a reader's or an access. -/
theorem breach_of_foretold {c : Stopped} {o' : Object} {log : List Record} (number turns : Nat)
    (hc : s.stopped.get? actor = some c) (ho : s.objects.get? c.object = some o)
    (hbroken : c.call.breach? o = some (o', breach, log)) :
    s.Breach ⟨actor, number, .resume turns⟩
      ({ s.withObject c.object o' with stopped := s.stopped.erase actor },
        .violated breach, log) := by
  obtain ⟨key, pauses, call⟩ := c
  cases call with
  | onLock call =>
      obtain ⟨l, hl, hlock⟩ := Option.bind_eq_some_iff.mp hbroken
      obtain ⟨u, hu, hafter⟩ := Option.map_eq_some_iff.mp hlock
      cases call with
      | read guard? w =>
          rw [LockCall.breach?, ReadWait.breach?] at hu
          split at hu
          · next hif =>
              obtain ⟨enters, raised, down⟩ := hif
              cases hu
              cases hafter
              exact .reader actor number turns key pauses guard? w o l hc ho hl enters raised down
          · cases hu
      | _ => cases hu
  | onPayload call =>
      cases o with
      | payload p =>
          obtain ⟨⟨q, found⟩, hu, hafter⟩ := Option.map_eq_some_iff.mp hbroken
          cases hafter
          exact .access actor number turns key pauses call p q breach log hc ho hu
      | _ => cases hbroken

/-- What a resume comes to that is answered with a violation. -/
theorem breach_of_resume {c : Stopped} (number turns : Nat) (hc : s.stopped.get? actor = some c)
    (h : (s.take ⟨actor, number, .resume turns⟩).2.1 = .violated breach) :
    s.Breach ⟨actor, number, .resume turns⟩ (s.take ⟨actor, number, .resume turns⟩) := by
  cases ho : s.objects.get? c.object with
  | none =>
      rw [take_resume hc, resume, ho] at h
      cases h
  | some o =>
      obtain ⟨n, hn⟩ := Call.exists_turns turns
      have hforetold := Call.goOn_breach? n o c.call
      rw [← hn] at hforetold
      cases hgo : Call.goOn (max turns 1) (.pauseAt o c.call) with
      | none =>
          rw [take_resume hc, resume, ho] at h
          dsimp only at h
          rw [hgo] at h
          cases h
      | some went =>
          rw [take_goOn number ho hc hgo] at h
          rw [hgo, Option.bind_some, breach_of_settle h] at hforetold
          rw [take_resume_breach number turns hc ho hforetold.symm]
          exact breach_of_foretold number turns hc ho hforetold.symm

/-- The breaches are just the turns that are answered with a violation. -/
theorem breach_iff {turn : Turn} {u : Session × Reply × List Record} :
    s.Breach turn u ↔ s.take turn = u ∧ ∃ breach, u.2.1 = .violated breach := by
  refine ⟨Breach.take_eq, ?_⟩
  rintro ⟨rfl, breach, h⟩
  obtain ⟨actor, key, step⟩ := turn
  cases hc : s.stopped.get? actor with
  | some c =>
      obtain ⟨turns, rfl⟩ | hr := step.resume_or_not
      · exact breach_of_resume key turns hc h
      · rw [take_of_stopped hc hr] at h
        cases h
  | none =>
      cases hs : step.isOnObject with
      | false =>
          cases step with
          | resume turns =>
              rw [take, hc] at h
              cases h
          | create design =>
              revert h
              rw [take, hc]
              dsimp only
              split
              · exact fun h => by cases h
              · split <;> exact fun h => by cases h
          | _ => cases hs
      | true =>
          cases ho : s.objects.get? key with
          | none =>
              rw [take_of_absent hc ho hs] at h
              cases h
          | some o =>
              rw [take_of_free hc ho hs] at h ⊢
              exact breach_of_act hc ho h

/-- A reader that does nothing wrong has to answer for a barrier that is below zero. -/
example : ((start (.bare ⟨0, 0, -1, true⟩)).answers
      [⟨0, 0, .waiting (.acquire .read)⟩, ⟨0, 0, .resume 501⟩, ⟨1, 0, .instant (.unlock .write)⟩,
        ⟨0, 0, .resume 1⟩]).map (fun a => a.reply) =
    [.paused 1, .paused 502, .ok, .violated .barrierBelowZero] := by
  decide +kernel

end Session

end ReaderWriter
