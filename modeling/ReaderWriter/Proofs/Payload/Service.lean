import ReaderWriter.Proofs.Payload.Access
import ReaderWriter.Proofs.Session.Soundness

/-!
# Payloads in service

While a payload is in service its accesses share the lock with operations that
other actors ask for by themselves. The ledger counts the holds of the latter;
what an access takes, it has at stake as long as it is stopped and has given
back when it ends.

A turn performs the accesses it was to do, up to those that are left to the
stopped call after it. The ledger stays sound, and the store moves by just the
accesses that were performed.
-/

namespace ReaderWriter

/-- The call is in an operation of the lock or on a payload. -/
def Stopped.Attends (c : Stopped) : Prop :=
  c.InOperation ∨ ∃ call, c.call = .onPayload call

namespace Stopped.InOperation

variable {c : Stopped}

theorem work_eq (h : c.InOperation) : c.call.work = [] := by
  obtain ⟨mode, h⟩ := h
  cases mode with
  | read =>
      rw [h.2]
      rfl
  | write =>
      obtain ⟨place, hcall⟩ := h
      rw [hcall]
      rfl

/-- A reader whose patience is about to end has not raised the barrier yet. -/
theorem hasRaised_eq (h : c.InOperation) (hl : c.isLosingPatience = true) :
    c.call.hasRaised = false := by
  rw [← h.isStarved_eq]
  exact Stopped.isStarved_of_isLosingPatience hl

end Stopped.InOperation

namespace Session

/-- The accesses that are left to the call of an actor. -/
def left (s : Session) (actor : Nat) : List Access :=
  match s.stopped.get? actor with
  | some c => c.call.work
  | none => []

/-- The accesses that a turn is to do on an object. -/
def todo (s : Session) (key : Nat) (t : Turn) : List Access :=
  if s.Concerns key t then
    match t.step with
    | .resume _ => s.left t.actor
    | step => step.work
  else []

/-- The accesses that a turn does: those it is to do, up to what it leaves. -/
def performed (s : Session) (key : Nat) (t : Turn) : List Access :=
  (s.todo key t).take ((s.todo key t).length - ((s.step t).1.left t.actor).length)

theorem todo_of_free {s : Session} {key actor : Nat} {step : Step}
    (hfree : s.stopped.get? actor = none) (hr : step.isResume = false) :
    s.todo key ⟨actor, key, step⟩ = step.work := by
  rw [todo, if_pos (concerns_of_free hfree hr)]
  cases step with
  | resume turns => cases hr
  | _ => rfl

theorem todo_of_stopped {s : Session} {actor number turns : Nat} {c : Stopped}
    (hget : s.stopped.get? actor = some c) :
    s.todo c.object ⟨actor, number, .resume turns⟩ = c.call.work := by
  have hconcerns : s.Concerns c.object ⟨actor, number, .resume turns⟩ := ⟨c, hget, rfl⟩
  rw [todo, if_pos hconcerns]
  dsimp only
  rw [left, hget]

theorem left_settle (s : Session) (actor key pauses : Nat) (went : Stride Object Call Ending) :
    (s.settle actor key pauses went).1.left actor =
      match went.progress with
      | .paused call => call.work
      | _ => [] := by
  rw [left, settle_get?_self]
  cases went.progress <;> rfl

theorem performed_of_todo_eq_nil {s : Session} {key : Nat} {t : Turn} (h : s.todo key t = []) :
    s.performed key t = [] := by
  rw [performed, h]
  exact List.take_nil

/-- What is done and what is left make up what was to be done. -/
theorem performed_eq {s : Session} {key : Nat} {t : Turn} {done : List Access}
    (h : s.todo key t = done ++ (s.step t).1.left t.actor) : s.performed key t = done := by
  rw [performed, h, List.length_append, Nat.add_sub_cancel, List.take_left']
  rfl

end Session

namespace Ledger

variable {key actor : Nat} {b : Ledger} {l : Lock} {store : Store} {t : Turn}

/-- The turn is a permitted one, or it begins an access to the payload. -/
def Serves (key : Nat) (b : Ledger) (t : Turn) : Prop :=
  b.Permits key t ∨ t.step.isAccess = true

instance (key : Nat) (b : Ledger) (t : Turn) : Decidable (b.Serves key t) :=
  inferInstanceAs (Decidable (_ ∨ _))

/-- An access moves no holds, since it counts none. -/
theorem next_access {step : Step} (hfree : b.session.stopped.get? actor = none)
    (hstep : step.isAccess = true) :
    b.next key ⟨actor, key, step⟩ = ⟨(b.session.step ⟨actor, key, step⟩).1, b.holds⟩ := by
  have hoperation : b.session.operation? key ⟨actor, key, step⟩ = none := by
    rw [Session.operation?_of_free hfree (Step.isResume_of_isAccess hstep)]
    cases step with
    | instant what => cases hstep
    | waiting what => cases hstep
    | _ => rfl
  rw [next, hoperation]

/-- The turn performs a first part of what it is to do and leaves the rest to
the actor, and it breaks no contract. -/
structure Faithful (key : Nat) (b : Ledger) (t : Turn) : Prop where
  rest : b.session.todo key t ≠ [] →
    b.session.todo key t = b.session.performed key t ++ (b.session.step t).1.left t.actor
  kept : b.session.Concerns key t → ∀ breach, (b.session.step t).2.reply ≠ .violated breach

/-- The turn has moved the store by the accesses it has performed. -/
structure Served (key : Nat) (b : Ledger) (store : Store) (t : Turn) : Prop
    extends Faithful key b t where
  sound : ∃ m, Sound key Stopped.Attends (b.next key t)
    (.payload ⟨.writerFirst m, (b.session.performed key t).foldl Store.apply store⟩) m

namespace Sound

/-- A turn that leaves the payload with a balanced lock and the right store has
served. -/
theorem served {done left : List Access} {m : Lock}
    (hs : Sound key Stopped.Attends (b.next key t)
      (.payload ⟨.writerFirst m, done.foldl Store.apply store⟩) m)
    (htodo : b.session.todo key t = done ++ left)
    (hleft : (b.session.step t).1.left t.actor = left)
    (kept : ∀ breach, (b.session.step t).2.reply ≠ .violated breach) : Served key b store t := by
  rw [← hleft] at htodo
  have hdone := Session.performed_eq htodo
  refine ⟨⟨fun _ => ?_, fun _ => kept⟩, m, ?_⟩
  · rw [hdone]
    exact htodo
  · rw [hdone]
    exact hs

/-- A turn that has no access to do leaves the store alone. -/
theorem served_of_todo_eq_nil {m : Lock}
    (hs : Sound key Stopped.Attends (b.next key t) (.payload ⟨.writerFirst m, store⟩) m)
    (htodo : b.session.todo key t = [])
    (kept : b.session.Concerns key t → ∀ breach, (b.session.step t).2.reply ≠ .violated breach) :
    Served key b store t := by
  refine ⟨⟨fun hne => absurd htodo hne, kept⟩, m, ?_⟩
  rw [Session.performed_of_todo_eq_nil htodo]
  exact hs

/-- The end of a stride of a call on the payload. -/
theorem settle_work {pauses : Nat} {went : Stride Object Call Ending}
    (h : Sound key Stopped.Attends b (.payload ⟨.writerFirst l, store⟩) l)
    (hnext : b.next key t = ⟨(b.session.settle t.actor key pauses went).1, b.holds⟩)
    (hreply : (b.session.step t).2.reply = (b.session.settle t.actor key pauses went).2.1)
    (hm : went.Meets
      (Call.Working store (b.session.todo key t) b.holds.reads
        (b.holds.writes + b.session.tallyOthers key t.actor fun c => c.call.isDraining)
        (b.session.tallyOthers key t.actor fun c => c.call.hasRaised))
      (Call.Worked store (b.session.todo key t) b.holds.reads
        (b.holds.writes + b.session.tallyOthers key t.actor fun c => c.call.isDraining)
        (b.session.tallyOthers key t.actor fun c => c.call.hasRaised))) :
    Served key b store t := by
  have hleft := Session.left_settle b.session t.actor key pauses went
  have hanswer := Session.settle_reply b.session t.actor key pauses went
  have hsession : (b.session.step t).1 = (b.session.settle t.actor key pauses went).1 :=
    congrArg Ledger.session hnext
  rw [← hsession] at hleft
  rw [← hreply] at hanswer
  obtain ⟨call, hp, pc, q, hstate, rfl, done, m, hdone, rfl, hb⟩ |
    ⟨ending, hf, q, hstate, hguard, done, m, hdone, rfl, hb⟩ := hm.cases
  · rw [hp] at hleft hanswer
    refine served (m := m) ?_ hdone hleft ?_
    · rw [hnext, ← hstate]
      apply h.settle_paused t.actor hp
      · rw [hstate]
        rfl
      · exact .inr ⟨pc, rfl⟩
      · rw [Nat.add_assoc] at hb
        exact hb
    · intro breach
      rw [hanswer]
      simp
  · rw [hf] at hleft hanswer
    refine served (m := m) ?_ hdone hleft ?_
    · rw [hnext, ← hstate]
      apply h.settle_finished t.actor pauses hf
      · rw [hstate]
        rfl
      · exact hguard
      · exact hb
    · intro breach
      rw [hanswer]
      cases ending <;> simp [Reply.ofEnding]

/-- The beginning of an access or a walk. -/
theorem serve_access {step : Step}
    (h : Sound key Stopped.Attends b (.payload ⟨.writerFirst l, store⟩) l)
    (hfree : b.session.stopped.get? actor = none) (hstep : step.isAccess = true) :
    Served key b store ⟨actor, key, step⟩ := by
  have hnext : b.next key ⟨actor, key, step⟩ = _ := next_access hfree hstep
  have htodo : b.session.todo key ⟨actor, key, step⟩ = step.work :=
    Session.todo_of_free hfree (Step.isResume_of_isAccess hstep)
  have htake := Session.take_access h.object hfree hstep
  cases hs : step.stride? ⟨.writerFirst l, store⟩ with
  | some went =>
      rw [hs] at htake
      rw [Session.step, htake] at hnext
      have hreply : (b.session.step ⟨actor, key, step⟩).2.reply =
          (b.session.settle actor key 1 went).2.1 := by
        rw [Session.step, htake]
      apply h.settle_work hnext hreply
      rw [htodo]
      exact Step.stride_meets (h.balanced_of_free hfree) hs
  | none =>
      rw [hs] at htake
      rw [Session.step, htake] at hnext
      apply served_of_todo_eq_nil
      · rw [hnext]
        exact h
      · rw [htodo, Step.work_eq_nil hs]
      · intro _ breach
        rw [Session.step, htake]
        simp

/-- The resumption of a call. The calls that are stopped are few enough for the
barrier to count them all. -/
theorem serve_resume {number turns : Nat} {c : Stopped}
    (h : Sound key Stopped.Attends b (.payload ⟨.writerFirst l, store⟩) l)
    (hget : b.session.stopped.get? actor = some c) (hc : c.object = key)
    (few : b.session.waiting key < 2 ^ 31)
    (few' : (b.session.step ⟨actor, number, .resume turns⟩).1.waiting key < 2 ^ 31) :
    Served key b store ⟨actor, number, .resume turns⟩ := by
  subst hc
  have hothers := Session.tallyOthers_lt_waiting hget fun c => c.call.hasRaised
  have hroom : (b.session.tallyOthers c.object actor fun c => c.call.hasRaised) + 1 < 2 ^ 31 := by
    omega
  obtain hop | ⟨call, hcall⟩ := h.calls actor c hget rfl
  · have hnow : c.isLosingPatience = true → b.session.raised c.object + 1 < 2 ^ 31 := by
      intro hlosing
      rw [Session.raised, Session.tally_of_stopped hget rfl, hop.hasRaised_eq hlosing]
      exact hroom
    obtain ⟨m, hm, -, kept⟩ := h.resume number turns
      (fun _ => .inl) hget rfl hop hnow
      fun _ => Nat.lt_of_le_of_lt (Session.tally_le_waiting _ _ _) few'
    refine served_of_todo_eq_nil hm ?_ fun _ => kept
    rw [Session.todo_of_stopped hget, hop.work_eq]
  · have hb := h.balanced_of_stopped hget rfl
    have hworking : Call.Working store c.call.work b.holds.reads
        (b.holds.writes + b.session.tallyOthers c.object actor fun c => c.call.isDraining)
        (b.session.tallyOthers c.object actor fun c => c.call.hasRaised)
        (.payload ⟨.writerFirst l, store⟩) c.call := by
      rw [hcall, ← Nat.add_assoc] at hb
      exact ⟨call, _, rfl, hcall, by rw [hcall]; exact Payload.progressed_refl hb call.work⟩
    obtain ⟨went, hgo, hm⟩ := Call.goOn_meets_work hroom hworking (max turns 1)
    obtain ⟨hnext, hreply⟩ := next_resume number h.object hget hgo
    rw [hcall] at hnext
    apply h.settle_work hnext hreply
    rw [Session.todo_of_stopped hget]
    exact hm

/-- Every turn of a payload in service is served. -/
theorem serve (h : Sound key Stopped.Attends b (.payload ⟨.writerFirst l, store⟩) l)
    (ht : b.Serves key t) (few : b.session.waiting key < 2 ^ 31)
    (few' : (b.session.step t).1.waiting key < 2 ^ 31) : Served key b store t := by
  by_cases hc : b.session.Concerns key t
  · obtain hp | hstep := ht
    · obtain ⟨actor, what, op, rfl, hfree, hop, ha⟩ | ⟨actor, mode, rfl, hfree⟩ |
        ⟨actor, number, turns, c, rfl, hget, hobject⟩ := hp.cases hc
      · obtain ⟨m, hm, -, kept⟩ := h.instant hfree hop ha
        exact served_of_todo_eq_nil hm (Session.todo_of_free hfree rfl) fun _ => kept
      · obtain ⟨m, hm, -, kept⟩ := h.acquire mode (fun _ => .inl) hfree
        exact served_of_todo_eq_nil hm (Session.todo_of_free hfree rfl) fun _ => kept
      · exact h.serve_resume hget hobject few few'
    · obtain ⟨actor, number, step⟩ := t
      cases step with
      | read name =>
          obtain ⟨rfl, hfree⟩ := hc
          exact h.serve_access hfree hstep
      | write name value =>
          obtain ⟨rfl, hfree⟩ := hc
          exact h.serve_access hfree hstep
      | walk request =>
          obtain ⟨rfl, hfree⟩ := hc
          exact h.serve_access hfree hstep
      | _ => cases hstep
  · refine served_of_todo_eq_nil (h.pass hc) ?_ fun hyes => absurd hyes hc
    rw [Session.todo, if_neg hc]

end Sound

end Ledger

end ReaderWriter
