import ReaderWriter.Proofs.Payload.Service

/-!
# Accesses that need not wait

On a lock that nobody holds or waits for, an access ends in the turn that
begins it: its locks are granted at once, and so is the upgrade of a read that
takes an element. It leaves the lock as free as it was, so a whole walk ends in
one turn too.

Hence a payload that is reached through its accesses alone never stops a call.
-/

namespace ReaderWriter

namespace Lock.Balanced

variable {l : Lock}

theorem isBarred_eq_false {readers owners : Nat} (h : l.Balanced readers owners 0) :
    l.isBarred = false := by
  rw [← Bool.not_eq_true, h.isBarred_iff]
  exact Nat.lt_irrefl 0

theorem isEmpty_eq_true {owners raisers : Nat} (h : l.Balanced 0 owners raisers) :
    l.isEmpty = true :=
  h.isEmpty_iff.mpr rfl

theorem write_free (h : l.Balanced 0 0 0) :
    l.write.Meets (fun _ _ => False) fun m _ => m.Balanced 0 1 0 := by
  obtain ⟨m, hclaim, hm, -⟩ := h.claim
  rw [Lock.write, if_neg (ne_true_of_eq_false h.isBarred_eq_false), Lock.writeFlag, hclaim]
  dsimp only
  rw [Lock.writeDrain, if_pos hm.isEmpty_eq_true]
  exact hm

theorem read_free {readers raisers : Nat} (h : l.Balanced readers 0 raisers) :
    l.read.Meets (fun _ _ => False) fun m _ => m.Balanced (readers + 1) 0 raisers := by
  rw [Lock.read, arrive_flag, if_neg (ne_true_of_eq_false h.flag_eq_false)]
  exact h.arrive

/-- The only reader of a free lock can upgrade. -/
theorem tryUpgrade_alone (h : l.Balanced 1 0 0) :
    ∃ m, l.tryUpgrade = (m, .ok ()) ∧ m.Balanced 0 1 0 := by
  obtain ⟨m, hclaim, hm, -⟩ := h.claim
  have hdepart : m.depart.Balanced 0 1 0 := hm.depart
  refine ⟨m.depart, ?_, hdepart⟩
  rw [Lock.tryUpgrade, if_neg (ne_true_of_eq_false h.isBarred_eq_false), hclaim]
  dsimp only
  rw [if_pos hdepart.isEmpty_eq_true]

end Lock.Balanced

namespace Cell

variable {c : Cell}

theorem look_free (hb : c.lock.Balanced 1 0 0) :
    c.look.Meets (fun _ _ => False) (Done c .read 0 0 0) := by
  rw [look]
  split
  · next hplace => exact ⟨(Store.take_of_readsInPlace hplace).symm, hb.depart⟩
  · obtain ⟨m, hu, hm⟩ := hb.tryUpgrade_alone
    have hcommit : (c.withLock m).lock.Balanced 0 (0 + 1) 0 := hm
    rw [hu]
    exact commit_meets .read hcommit

theorem access_free (a : Access) (hb : c.lock.Balanced 0 0 0) :
    (c.access a).Meets (fun _ _ => False) (Done c a 0 0 0) := by
  cases a with
  | write value =>
      rw [access, Stride.Meets.andThen_iff, Stride.Meets.within_iff]
      apply hb.write_free.mono
      · exact fun _ _ hno => hno
      · intro m _ hm
        have hcommit : (c.withLock m).lock.Balanced 0 (0 + 1) 0 := hm
        exact commit_meets (.write value) hcommit
  | read =>
      rw [access, Stride.Meets.andThen_iff, Stride.Meets.within_iff]
      apply hb.read_free.mono
      · exact fun _ _ hno => hno
      · intro m _ hm
        have hlook : (c.withLock m).lock.Balanced 1 0 0 := hm
        exact look_free hlook

end Cell

namespace Payload

variable {l : Lock} {store : Store}

/-- The payload is under a lock that is free. -/
def Free (p : Payload) : Prop :=
  ∃ m s, p = ⟨.writerFirst m, s⟩ ∧ m.Balanced 0 0 0

theorem access_free {p : Payload} (a : Access) (hp : p.Free) :
    (p.access a).Meets (fun _ _ => False) fun q _ => q.Free := by
  obtain ⟨m, s, rfl, hb⟩ := hp
  rw [access, Stride.Meets.within_iff]
  apply (Cell.access_free (c := ⟨m, s⟩) a hb).mono
  · exact fun _ _ hno => hno
  · intro d _ hdone
    exact ⟨d.lock, d.store, rfl, hdone.2⟩

theorem walk_free {p : Payload} (n : Nat) (decisions : List Decision) (hp : p.Free) :
    (walk n decisions p).Meets (fun _ _ => False) fun q _ => q.Free := by
  induction decisions generalizing n p with
  | nil => exact hp
  | cons d rest ih =>
      rw [walk, Stride.Meets.andThen_iff]
      apply (access_free (accessOf n d) hp).mono
      · exact fun _ _ hno => hno
      · intro q _ hq
        exact ih (n + 1) hq

end Payload

/-- The first stride of a step on a free payload is the last. -/
theorem Step.stride_free {p : Payload} {step : Step} {went : Stride Object Call Ending}
    (hp : p.Free) (hs : step.stride? p = some went) :
    went.Meets (fun _ _ => False) fun _ _ => True := by
  cases step with
  | read name =>
      cases hs
      rw [Call.meets_strideOnPayload, PayloadCall.enter, Stride.Meets.relabel_iff]
      exact (Payload.access_free .read hp).mono (fun _ _ hno => hno) fun _ _ _ => trivial
  | write name value =>
      cases hs
      rw [Call.meets_strideOnPayload, PayloadCall.enter, Stride.Meets.relabel_iff]
      exact (Payload.access_free (.write value) hp).mono (fun _ _ hno => hno)
        fun _ _ _ => trivial
  | walk request =>
      cases hdraw : request.draw? with
      | some plan =>
          rw [stride?, hdraw] at hs
          cases hs
          rw [Call.meets_strideOnPayload, PayloadCall.walkThrough, Stride.Meets.relabel_iff]
          exact (Payload.walk_free 0 plan.decisions hp).mono (fun _ _ hno => hno)
            fun _ _ _ => trivial
      | none =>
          rw [stride?, hdraw] at hs
          cases hs
  | _ => cases hs

namespace Ledger

variable {key : Nat} {b : Ledger} {l : Lock} {store : Store} {t : Turn}

/-- The turn is about the payload itself, or it resumes a call. -/
def Plain (key : Nat) (b : Ledger) (t : Turn) : Prop :=
  b.session.Concerns key t → t.step.isAccess = true ∨ t.step.isResume = true

instance (key : Nat) (b : Ledger) (t : Turn) : Decidable (b.Plain key t) :=
  inferInstanceAs (Decidable (_ → _ ∨ _))

/-- The turn does all it was asked for, and its call is not stopped. -/
def Prompt (key : Nat) (b : Ledger) (t : Turn) : Prop :=
  b.session.Concerns key t →
    b.session.performed key t = t.step.work ∧ ∀ pauses, (b.session.step t).2.reply ≠ .paused pauses

/-- The end of a call leaves a quiet payload quiet. -/
theorem Quiet.settle {actor pauses : Nat} {went : Stride Object Call Ending} {ending : Ending}
    {holds : Holds} (hq : b.Quiet key) (hf : went.progress = .finished ending) :
    Quiet key ⟨(b.session.settle actor key pauses went).1, holds⟩ := by
  intro a c hget
  by_cases ha : a = actor
  · subst ha
    rw [Session.settle_get?_self, hf] at hget
    cases hget
  · rw [Session.settle_get?_of_ne _ ha] at hget
    exact hq a c hget

/-- An access to a payload that is free. -/
theorem Sound.prompt_access {actor : Nat} {step : Step}
    (h : Sound key Stopped.Attends b (.payload ⟨.writerFirst l, store⟩) l) (hq : b.Quiet key)
    (hnone : b.holds = .none) (hfree : b.session.stopped.get? actor = none)
    (hstep : step.isAccess = true) :
    (b.next key ⟨actor, key, step⟩).Quiet key ∧ (b.next key ⟨actor, key, step⟩).holds = .none ∧
      Prompt key b ⟨actor, key, step⟩ := by
  have hb := h.balanced_of_quiet hq
  rw [hnone] at hb
  have hnext : b.next key ⟨actor, key, step⟩ = _ := next_access hfree hstep
  have htodo : b.session.todo key ⟨actor, key, step⟩ = step.work :=
    Session.todo_of_free hfree (Step.isResume_of_isAccess hstep)
  have htake := Session.take_access h.object hfree hstep
  cases hs : step.stride? ⟨.writerFirst l, store⟩ with
  | some went =>
      rw [hs] at htake
      have hm := Step.stride_free ⟨l, store, rfl, hb⟩ hs
      obtain ⟨-, -, hfalse⟩ | ⟨ending, hf, -⟩ := hm.cases
      · exact hfalse.elim
      · have hleft := Session.left_settle b.session actor key 1 went
        have hanswer := Session.settle_reply b.session actor key 1 went
        rw [hf] at hleft hanswer
        rw [hnext]
        refine ⟨?_, hnone, fun _ => ⟨?_, ?_⟩⟩
        · rw [Session.step, htake]
          exact hq.settle hf
        · apply Session.performed_eq
          rw [htodo, Session.step, htake]
          dsimp only
          rw [hleft, List.append_nil]
        · intro pauses
          rw [Session.step, htake]
          dsimp only
          rw [hanswer]
          cases ending <;> simp [Reply.ofEnding]
  | none =>
      rw [hs] at htake
      rw [hnext]
      refine ⟨?_, hnone, fun _ => ⟨?_, ?_⟩⟩
      · rw [Session.step, htake]
        exact hq
      · have hnil := Step.work_eq_nil hs
        rw [hnil]
        exact Session.performed_of_todo_eq_nil (htodo.trans hnil)
      · intro pauses
        rw [Session.step, htake]
        simp

/-- While nothing but accesses is asked of a payload, each of them is prompt. -/
theorem Sound.prompt (h : Sound key Stopped.Attends b (.payload ⟨.writerFirst l, store⟩) l)
    (hq : b.Quiet key) (hnone : b.holds = .none) (hplain : b.Plain key t) :
    (b.next key t).Quiet key ∧ (b.next key t).holds = .none ∧ Prompt key b t := by
  by_cases hc : b.session.Concerns key t
  · obtain ⟨actor, number, step⟩ := t
    obtain hstep | hstep := hplain hc
    · have hfree : number = key ∧ b.session.stopped.get? actor = none := by
        cases step with
        | resume turns => cases hstep
        | _ => exact hc
      obtain ⟨rfl, hfree⟩ := hfree
      exact h.prompt_access hq hnone hfree hstep
    · cases step with
      | resume turns =>
          obtain ⟨c, hget, hobject⟩ := hc
          exact absurd hobject (hq actor c hget)
      | _ => cases hstep
  · have hagrees : b.session.Agrees key (b.next key t).session :=
      h.unguarded.take_agrees hc
    refine ⟨?_, ?_, fun hyes => absurd hyes hc⟩
    · intro actor c hget hobject
      exact hq actor c ((hagrees.stopped actor c hobject).mp hget) hobject
    · rw [next_of_not_concerns hc]
      exact hnone

end Ledger

end ReaderWriter
