import ReaderWriter.Proofs.Payload.Schedule

/-!
# Workers that stop

The workers of a crew go through a plan on a payload under the lock, and each of them may
be stopped in the middle of an access while the others go on. Yet an access is done all at
once, when it ends, so what has been done at any time is a schedule of whole accesses. It
keeps each worker's accesses in order, and when nobody is stopped any more it is complete.

So whatever is known of the schedules of a plan holds of the crew.
-/

namespace ReaderWriter

namespace Session

variable {s s' : Session} {key actor : Nat} {t : Turn}

/-- The accesses that are left to an actor's call, if it is on the object. -/
def pending (s : Session) (key actor : Nat) : List Access :=
  match (s.stopped.get? actor).filter fun c => c.object = key with
  | some c => c.call.work
  | none => []

theorem pending_eq_left (h : ∀ c, s.stopped.get? actor = some c → c.object = key) :
    s.pending key actor = s.left actor := by
  have hall : (s.stopped.get? actor).filter (fun c => c.object = key) = s.stopped.get? actor := by
    ext c
    simp only [Option.filter_eq_some_iff, decide_eq_true_iff]
    exact and_iff_left_of_imp (h c)
  rw [pending, hall]
  rfl

theorem pending_of_elsewhere (h : ∀ c, s.stopped.get? actor = some c → c.object ≠ key) :
    s.pending key actor = [] := by
  have hnone : (s.stopped.get? actor).filter (fun c => c.object = key) = none := by
    rw [Option.filter_eq_none_iff]
    exact fun c hget => by simpa using h c hget
  rw [pending, hnone]

/-- Sessions that agree on an object have the same accesses left on it. -/
theorem Agrees.pending_eq (h : s.Agrees key s') (actor : Nat) :
    s'.pending key actor = s.pending key actor := by
  have hfilter : (s'.stopped.get? actor).filter (fun c => c.object = key) =
      (s.stopped.get? actor).filter fun c => c.object = key := by
    ext c
    simp only [Option.filter_eq_some_iff, decide_eq_true_iff]
    exact and_congr_left fun hobject => h.stopped actor c hobject
  rw [pending, hfilter, pending]

theorem left_of_free (h : s.stopped.get? actor = none) : s.left actor = [] := by
  rw [left, h]

/-- A turn that concerns an object finds its actor nowhere else. -/
theorem Concerns.object_eq (hc : s.Concerns key t) {c : Stopped}
    (hget : s.stopped.get? t.actor = some c) : c.object = key := by
  obtain ⟨actor, number, step⟩ := t
  cases step with
  | resume turns =>
      obtain ⟨c', hget', hobject⟩ := hc
      rw [Option.mem_def, hget] at hget'
      cases hget'
      exact hobject
  | _ => cases hget.symm.trans hc.2

/-- Nor does it leave its actor elsewhere. -/
theorem Concerns.object_eq_after (hc : s.Concerns key t) {c : Stopped}
    (hget : (s.take t).1.stopped.get? t.actor = some c) : c.object = key := by
  have hnow : ∀ c, s.stopped.get? t.actor = some c → c.object = key := fun c => hc.object_eq
  have hmoves := s.take_moves t
  generalize s.take t = u at hmoves hget
  have hsettled : ∀ {k pauses : Nat} {went : Stride Object Call Ending},
      (s.settle t.actor k pauses went).1.stopped.get? t.actor = some c → c.object = k := by
    intro k pauses went hsettle
    rw [settle_get?_self] at hsettle
    split at hsettle
    · cases hsettle
      rfl
    · cases hsettle
  cases hmoves with
  | begins went begun => exact (hsettled hget).trans (begun.concerns_iff.mp hc)
  | makes name mode l values begun => exact (hsettled hget).trans (begun.concerns_iff.mp hc)
  | resumes turns c' o went stopped => exact (hsettled hget).trans (hnow c' stopped)
  | obtains =>
      rw [withGuard_stopped] at hget
      exact hnow c hget
  | uses =>
      rw [withGuard_stopped] at hget
      exact hnow c hget
  | _ => exact hnow c hget

end Session

theorem Stopped.InOperation.onLock {c : Stopped} (h : c.InOperation) :
    ∃ lc, c.call = .onLock lc := by
  obtain ⟨mode, h⟩ := h
  cases mode with
  | read => exact ⟨_, h.2⟩
  | write =>
      obtain ⟨place, hcall⟩ := h
      exact ⟨_, hcall⟩

theorem PayloadCall.work_ne_nil (call : PayloadCall) : call.work ≠ [] := by
  cases call <;> exact List.cons_ne_nil _ _

namespace Call

variable {o : Object} {call : Call}

/-- A call on the lock stays one, so it has no accesses to do. -/
theorem onLock_of_strideOnLock {s : Stride Lock LockCall Ending}
    (h : (strideOnLock o s).progress = .paused call) : ∃ lc, call = .onLock lc := by
  obtain ⟨m, log, progress⟩ := s
  cases progress <;> cases h
  exact ⟨_, rfl⟩

theorem onLock_of_goOn {s went : Stride Object Call Ending} (turns : Nat)
    (hs : ∀ call, s.progress = .paused call → ∃ lc, call = .onLock lc)
    (hgo : goOn turns s = some went) (h : went.progress = .paused call) :
    ∃ lc, call = .onLock lc := by
  induction turns generalizing s with
  | zero =>
      cases hgo
      exact hs call h
  | succ turns ih =>
      obtain ⟨o', log, progress⟩ := s
      cases progress with
      | paused call' =>
          obtain ⟨lc, rfl⟩ := hs call' rfl
          rw [goOn] at hgo
          dsimp only at hgo
          cases hnext : (Call.onLock lc).resume? o' with
          | none =>
              rw [hnext] at hgo
              cases hgo
          | some u =>
              rw [hnext] at hgo
              dsimp only at hgo
              obtain ⟨l, -, rfl⟩ := Option.map_eq_some_iff.mp hnext
              refine ih ?_ hgo
              exact fun call hp => onLock_of_strideOnLock hp
      | finished ending => cases hgo; cases h
      | violated breach => cases hgo; cases h

end Call

namespace Ledger

variable {key : Nat} {b : Ledger} {l : Lock} {store : Store} {t : Turn} {script : List Turn}

/-- The accesses that a turn begins. What a resume goes on with has begun before. -/
def begun (key : Nat) (b : Ledger) (t : Turn) : List Access :=
  if t.step.isResume then [] else b.session.todo key t

/-- The accesses that an actor begins along a script. -/
def asked (key actor : Nat) : Ledger → List Turn → List Access
  | _, [] => []
  | b, t :: rest =>
    (if t.actor = actor then b.begun key t else []) ++ asked key actor (b.next key t) rest

/-- The accesses that are performed along a script, in the order they end, each with the
actor whose turn it was. -/
def moves (key : Nat) : Ledger → List Turn → List Round.Move
  | _, [] => []
  | b, t :: rest =>
    (b.session.performed key t).map (Round.Move.mk t.actor) ++ moves key (b.next key t) rest

theorem map_access_moves (b : Ledger) (script : List Turn) :
    (moves key b script).map Round.Move.access = performed key b script := by
  induction script generalizing b with
  | nil => rfl
  | cons t rest ih => simp [moves, performed, ih, Function.comp_def]

/-- An operation on the lock leaves its actor no access to do. -/
theorem Sound.left_of_permits
    (h : Sound key Stopped.Attends b (.payload ⟨.writerFirst l, store⟩) l) (ht : b.Permits key t)
    (hc : b.session.Concerns key t) (htodo : b.session.todo key t = []) :
    (b.session.step t).1.left t.actor = [] := by
  obtain ⟨actor, what, op, rfl, hfree, hop, ha⟩ | ⟨actor, mode, rfl, hfree⟩ |
    ⟨actor, number, turns, c, rfl, hget, hobject⟩ := ht.cases hc
  · rw [Session.step, Session.take_instant what hfree h.object h.lock]
    exact Session.left_of_free hfree
  · rw [Session.step, Session.take_waiting _ hfree h.object h.lock]
    dsimp only
    rw [Session.left_settle]
    split
    · next call hpaused =>
        obtain ⟨lc, rfl⟩ := Call.onLock_of_strideOnLock hpaused
        rfl
    · rfl
  · subst hobject
    obtain hop | ⟨call, hcall⟩ := h.calls actor c hget rfl
    · obtain ⟨lc, hlc⟩ := hop.onLock
      cases hgo : Call.goOn (max turns 1) (.pauseAt (.payload ⟨.writerFirst l, store⟩) c.call) with
      | none =>
          rw [Session.step, Session.take_resume hget, Session.resume, h.object]
          dsimp only
          rw [hgo]
          change b.session.left actor = []
          rw [Session.left, hget]
          exact hop.work_eq
      | some went =>
          rw [Session.step, Session.take_goOn number h.object hget hgo]
          dsimp only
          rw [Session.left_settle]
          split
          · next call hpaused =>
              rw [hlc] at hgo
              obtain ⟨lc', rfl⟩ := Call.onLock_of_goOn (max turns 1)
                (fun call hp => ⟨lc, (Progress.paused.inj hp).symm⟩) hgo hpaused
              rfl
          · rfl
    · -- an access that is stopped has something to do
      rw [Session.todo_of_stopped hget, hcall] at htodo
      exact absurd htodo call.work_ne_nil

/-- A walk through an empty plan is over as soon as it begins. -/
theorem Sound.left_of_isAccess
    (h : Sound key Stopped.Attends b (.payload ⟨.writerFirst l, store⟩) l)
    (hstep : t.step.isAccess = true) (hc : b.session.Concerns key t)
    (htodo : b.session.todo key t = []) : (b.session.step t).1.left t.actor = [] := by
  obtain ⟨actor, number, step⟩ := t
  have hfree : number = key ∧ b.session.stopped.get? actor = none := by
    cases step with
    | resume turns => cases hstep
    | _ => exact hc
  obtain ⟨rfl, hfree⟩ := hfree
  rw [Session.todo_of_free hfree (Step.isResume_of_isAccess hstep)] at htodo
  have htake := Session.take_access h.object hfree hstep
  cases hs : step.stride? ⟨.writerFirst l, store⟩ with
  | none =>
      rw [hs] at htake
      rw [Session.step, htake]
      exact Session.left_of_free hfree
  | some went =>
      rw [hs] at htake
      rw [Session.step, htake]
      dsimp only
      rw [Session.left_settle]
      obtain ⟨call, -, pc, -, -, -, done, -, hdone, -⟩ | ⟨ending, hf, -⟩ :=
        (Step.stride_meets (h.balanced_of_free hfree) hs).cases
      · rw [htodo] at hdone
        exact absurd (List.append_eq_nil_iff.mp hdone.symm).2 pc.work_ne_nil
      · rw [hf]

/-- A turn that has no access to do leaves none to its actor. -/
theorem Sound.left_eq_nil (h : Sound key Stopped.Attends b (.payload ⟨.writerFirst l, store⟩) l)
    (ht : b.Serves key t) (hc : b.session.Concerns key t) (htodo : b.session.todo key t = []) :
    (b.session.step t).1.left t.actor = [] := by
  obtain hp | hstep := ht
  · exact h.left_of_permits hp hc htodo
  · exact h.left_of_isAccess hstep hc htodo

/-- A turn on the payload is to do what was left to its actor, or what it begins. -/
theorem pending_append_begun (hc : b.session.Concerns key t) :
    b.session.pending key t.actor ++ b.begun key t = b.session.todo key t := by
  obtain ⟨actor, number, step⟩ := t
  cases step with
  | resume turns =>
      have hpending : b.session.pending key actor = b.session.left actor :=
        Session.pending_eq_left fun c hget => hc.object_eq hget
      have htodo : b.session.todo key ⟨actor, number, .resume turns⟩ = b.session.left actor :=
        if_pos hc
      rw [hpending, htodo, begun]
      exact List.append_nil _
  | _ =>
      have hnone : b.session.pending key actor = [] :=
        Session.pending_of_elsewhere fun c hget => by cases hget.symm.trans hc.2
      rw [hnone, begun]
      rfl

/-- What an actor has to do after a turn is what it had to do before, with what it has begun
and less what it has done. -/
theorem Sound.pending_step
    (h : Sound key Stopped.Attends b (.payload ⟨.writerFirst l, store⟩) l) (ht : b.Serves key t)
    (hfaithful : b.Faithful key t) (actor : Nat) :
    b.session.pending key actor ++ (if t.actor = actor then b.begun key t else []) =
      Round.own actor ((b.session.performed key t).map (Round.Move.mk t.actor)) ++
        (b.next key t).session.pending key actor := by
  rw [Round.own_map]
  -- Only the actor of a turn on the payload is any further than before.
  by_cases hc : b.session.Concerns key t
  · by_cases ha : t.actor = actor
    · subst ha
      have hafter : (b.next key t).session.pending key t.actor =
          (b.session.step t).1.left t.actor :=
        Session.pending_eq_left fun c hget => hc.object_eq_after hget
      have hrest : b.session.todo key t =
          b.session.performed key t ++ (b.session.step t).1.left t.actor := by
        by_cases htodo : b.session.todo key t = []
        · rw [h.left_eq_nil ht hc htodo, Session.performed_of_todo_eq_nil htodo, htodo]
          rfl
        · exact hfaithful.rest htodo
      rw [if_pos rfl, if_pos rfl, hafter, ← hrest]
      exact pending_append_begun hc
    · have hsame : (b.next key t).session.pending key actor = b.session.pending key actor := by
        have hstopped : (b.next key t).session.stopped.get? actor =
            b.session.stopped.get? actor := Session.take_stopped_of_ne (Ne.symm ha)
        rw [Session.pending, hstopped, Session.pending]
      rw [if_neg ha, if_neg ha, hsame, List.append_nil, List.nil_append]
  · have hagrees : b.session.Agrees key (b.next key t).session := h.unguarded.take_agrees hc
    have htodo : b.session.todo key t = [] := by
      rw [Session.todo, if_neg hc]
    have hbegun : b.begun key t = [] := by
      rw [begun, htodo, ite_self]
    rw [hagrees.pending_eq, hbegun, Session.performed_of_todo_eq_nil htodo, ite_self,
      List.append_nil, List.nil_append]

theorem Sound.pending_script
    (h : Sound key Stopped.Attends b (.payload ⟨.writerFirst l, store⟩) l)
    (serves : EveryTurn key (Serves key) b script) (few : FewStopped key b script) (actor : Nat) :
    b.session.pending key actor ++ asked key actor b script =
      Round.own actor (moves key b script) ++ (b.after key script).session.pending key actor := by
  induction script generalizing b l store with
  | nil => simp [asked, moves, Round.own]
  | cons t rest ih =>
      have hserved := h.serve serves.1 few.1 few.2.start
      obtain ⟨m, hm⟩ := hserved.sound
      have hturn := h.pending_step serves.1 hserved.toFaithful actor
      have hrest := ih hm serves.2 few.2
      rw [asked, moves, Round.own_append, ← List.append_assoc, hturn, List.append_assoc, hrest,
        List.append_assoc]
      rfl

/-- A crew goes through a plan on a fresh payload under the lock, and is done. -/
structure Crew (plan : Plan) (threads key : Nat) (s : Session) (store : Store)
    (script : List Turn) : Prop where
  fresh : s.Fresh key (.payload ⟨.writerFirst .fresh, store⟩)
  serves : EveryTurn key (Serves key) ⟨s, .none⟩ script
  few : FewStopped key ⟨s, .none⟩ script
  /-- Each worker passes through the plan once, in one walk or access by access. -/
  passes : ∀ w < threads, asked key w ⟨s, .none⟩ script = plan.accesses
  /-- Nobody else asks for an access. -/
  alone : ∀ t ∈ script, t.step.isAccess = true → t.actor < threads
  /-- Nobody is in the middle of one any more, or holds the lock besides. -/
  quiet : (after key ⟨s, .none⟩ script).Quiet key
  none : (after key ⟨s, .none⟩ script).holds = .none

/-- A turn that is no access begins none. -/
theorem begun_eq_nil (hstep : t.step.isAccess = false) : b.begun key t = [] := by
  obtain ⟨actor, number, step⟩ := t
  cases step with
  | read name => cases hstep
  | write name value => cases hstep
  | walk request => cases hstep
  | _ => simp [begun, Step.isResume, Session.todo, Step.work]

theorem asked_eq_nil {actor : Nat}
    (h : ∀ t ∈ script, t.step.isAccess = true → t.actor ≠ actor) : asked key actor b script = [] := by
  induction script generalizing b with
  | nil => rfl
  | cons t rest ih =>
      rw [asked, ih fun u hu => h u (List.mem_cons_of_mem t hu), List.append_nil]
      split
      · next ha =>
          refine begun_eq_nil (Bool.eq_false_iff.mpr fun haccess => ?_)
          exact h t List.mem_cons_self haccess ha
      · rfl

/-- At any time the store is what the accesses have made of it that are over. -/
theorem Crew.store_after {plan : Plan} {threads : Nat} {s : Session} {first rest : List Turn}
    (h : Crew plan threads key s store (first ++ rest)) :
    ∃ m, (after key ⟨s, .none⟩ first).session.objects.get? key = some (.payload ⟨.writerFirst m,
      (performed key ⟨s, .none⟩ first).foldl Store.apply store⟩) := by
  have hsound : Sound key Stopped.Attends ⟨s, .none⟩ (.payload ⟨.writerFirst .fresh, store⟩)
    .fresh := .of_fresh h.fresh
  obtain ⟨-, m, hm⟩ :=
    hsound.serve_script (Script.EveryTurn.append_iff.mp h.serves).1 h.few.of_append
  exact ⟨m, hm.object⟩

/-- What a crew has done is a schedule of whole accesses, and it has left the lock. -/
theorem Crew.interleaves {plan : Plan} {threads : Nat} {s : Session}
    (h : Crew plan threads key s store script) :
    Round.Interleaves plan threads (moves key ⟨s, .none⟩ script) ∧
      ∃ m, m.Balanced 0 0 0 ∧ (after key ⟨s, .none⟩ script).session.objects.get? key =
        some (.payload ⟨.writerFirst m,
          ((moves key ⟨s, .none⟩ script).map Round.Move.access).foldl Store.apply store⟩) := by
  have hsound : Sound key Stopped.Attends ⟨s, .none⟩ (.payload ⟨.writerFirst .fresh, store⟩)
    .fresh := .of_fresh h.fresh
  have hown : ∀ w, Round.own w (moves key ⟨s, .none⟩ script) = asked key w ⟨s, .none⟩ script := by
    intro w
    have hscript := hsound.pending_script h.serves h.few w
    rw [Session.pending_of_elsewhere (h.fresh.unused w), Session.pending_of_elsewhere (h.quiet w),
      List.append_nil, List.nil_append] at hscript
    exact hscript.symm
  refine ⟨⟨?_, ?_⟩, ?_⟩
  · intro m hm
    by_contra hworker
    have hnone : asked key m.worker ⟨s, .none⟩ script = [] :=
      asked_eq_nil fun t ht haccess heq => hworker (heq ▸ h.alone t ht haccess)
    have hmem : m.access ∈ Round.own m.worker (moves key ⟨s, .none⟩ script) :=
      List.mem_map_of_mem (List.mem_filter.mpr ⟨hm, decide_eq_true rfl⟩)
    rw [hown, hnone] at hmem
    cases hmem
  · intro w hw
    rw [hown, h.passes w hw]
  · obtain ⟨-, m, hm⟩ := hsound.serve_script h.serves h.few
    have hb := hm.balanced_of_quiet h.quiet
    rw [h.none] at hb
    rw [map_access_moves]
    exact ⟨m, hb, hm.object⟩

end Ledger

end ReaderWriter
