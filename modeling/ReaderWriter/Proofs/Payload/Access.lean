import ReaderWriter.Proofs.Session.Accounts

/-!
# Accesses under the lock

An access to a payload may stop in its read lock, in the write lock it falls
back to, or in the drain of either. Wherever it stops it has not touched the
store yet, and when it ends it has applied its effect once, to the store as it
was then. What it had at stake in the lock it has given back.

A walk through a plan does its accesses one by one. So the work of a call is a
list of accesses, and at every pause a first part of it is done and the rest is
still to be done.
-/

namespace ReaderWriter

/-- The access that stands in a place. -/
def AccessWait.access : AccessWait → Access
  | .putting value _ => .write value
  | .looking _ | .taking _ => .read

namespace Cell

variable {c : Cell} {a : Access} {readers owners raisers : Nat}

/-- The access has to wait; the store is as it was. -/
def Pending (c : Cell) (a : Access) (readers owners raisers : Nat) (d : Cell)
    (place : AccessWait) : Prop :=
  place.access = a ∧ d.store = c.store ∧
    d.lock.Balanced readers (owners + place.isDraining.toNat) (raisers + place.hasRaised.toNat)

/-- The access is done; it has nothing at stake any more. -/
def Done (c : Cell) (a : Access) (readers owners raisers : Nat) (d : Cell) (_ : Unit) : Prop :=
  d.store = c.store.apply a ∧ d.lock.Balanced readers owners raisers

theorem commit_meets {wait : Cell → AccessWait → Prop} (a : Access)
    (hb : c.lock.Balanced readers (owners + 1) raisers) :
    (c.commit a).Meets wait (Done c a readers owners raisers) := by
  obtain ⟨m, hr, -, hm⟩ := hb.release
  rw [commit, Stride.Meets.within_iff]
  dsimp only
  rw [hr]
  exact ⟨rfl, hm⟩

theorem write_commit_meets {embed : WriteWait → AccessWait} {s : Stride Lock WriteWait Unit}
    (haccess : ∀ place, (embed place).access = a)
    (hdraining : ∀ place, (embed place).isDraining = place.isDrain)
    (hraised : ∀ place, (embed place).hasRaised = false)
    (hm : s.Meets (fun m place => m.Balanced readers (owners + place.isDrain.toNat) raisers)
      fun m _ => m.isEmpty = true ∧ m.Balanced readers (owners + 1) raisers) :
    ((s.within c.withLock).andThen embed fun _ d => d.commit a).Meets
      (Pending c a readers owners raisers) (Done c a readers owners raisers) := by
  rw [Stride.Meets.andThen_iff, Stride.Meets.within_iff]
  apply hm.mono
  · intro m place hb
    refine ⟨haccess place, rfl, ?_⟩
    rw [hdraining, hraised]
    exact hb
  · intro m _ hb
    exact commit_meets a hb.2

/-- A read that has its read lock ends, or it falls back to the write lock. -/
theorem look_meets (hb : c.lock.Balanced (readers + 1) owners raisers) :
    c.look.Meets (Pending c .read readers owners raisers)
      (Done c .read readers owners raisers) := by
  rw [look]
  split
  · next hplace => exact ⟨(Store.take_of_readsInPlace hplace).symm, hb.depart⟩
  · obtain ⟨m, hu, -, hm⟩ | ⟨m, why, hu, hm⟩ := hb.tryUpgrade
    · rw [hu]
      have hcommit : (c.withLock m).lock.Balanced readers (owners + 1) raisers := hm
      exact commit_meets .read hcommit
    · rw [hu]
      exact write_commit_meets (fun _ => rfl) (fun _ => rfl) (fun _ => rfl) hm.depart.write

theorem access_meets (a : Access) (hb : c.lock.Balanced readers owners raisers) :
    (c.access a).Meets (Pending c a readers owners raisers) (Done c a readers owners raisers) := by
  cases a with
  | write value => exact write_commit_meets (fun _ => rfl) (fun _ => rfl) (fun _ => rfl) hb.write
  | read =>
      rw [access, Stride.Meets.andThen_iff, Stride.Meets.within_iff]
      apply hb.read.mono
      · intro m place hwait
        obtain ⟨rfl, -, hm⟩ := hwait
        exact ⟨rfl, rfl, hm⟩
      · intro m _ hin
        have hlook : (c.withLock m).lock.Balanced (readers + 1) owners raisers := hin.2
        exact look_meets hlook

/-- An access goes on from where it stands. The barrier has room for it. -/
theorem resume_meets {place : AccessWait} (few : raisers + 1 < 2 ^ 31)
    (hb : c.lock.Balanced readers (owners + place.isDraining.toNat)
      (raisers + place.hasRaised.toNat)) :
    (c.resume place).Meets (Pending c place.access readers owners raisers)
      (Done c place.access readers owners raisers) := by
  cases place with
  | putting value place =>
      exact write_commit_meets (fun _ => rfl) (fun _ => rfl) (fun _ => rfl) hb.resumeWrite
  | taking place =>
      exact write_commit_meets (fun _ => rfl) (fun _ => rfl) (fun _ => rfl) hb.resumeWrite
  | looking place =>
      rw [resume, Stride.Meets.andThen_iff, Stride.Meets.within_iff]
      have hlooking : c.lock.Balanced readers owners (raisers + place.raised.toNat) := hb
      apply (hlooking.resume fun _ => few).mono
      · intro m place' hwait
        exact ⟨rfl, rfl, hwait.2.2.2⟩
      · intro m _ hin
        have hlook : (c.withLock m).lock.Balanced (readers + 1) owners raisers := hin.2.2
        exact look_meets hlook

end Cell

/-! ## Work -/

/-- The accesses of decisions, the first of them being number `n`. -/
def Payload.workOf : Nat → List Decision → List Access
  | _, [] => []
  | n, d :: rest => accessOf n d :: workOf (n + 1) rest

/-- The accesses that a stopped walk has still to do. -/
def WalkWait.work (w : WalkWait) : List Access :=
  w.place.access :: Payload.workOf w.next w.rest

/-- The accesses that a stopped call has still to do. -/
def PayloadCall.work : PayloadCall → List Access
  | .access place => [place.access]
  | .walk _ _ w => w.work

/-- The accesses that a stopped call has still to do. -/
def Call.work : Call → List Access
  | .onLock _ => []
  | .onPayload call => call.work

namespace Payload

variable {store : Store} {l : Lock} {todo left left' : List Access} {p q : Payload}
variable {readers owners raisers owners' raisers' : Nat}

/-- The accesses to do have been done to the store up to those that are left. -/
def Progressed (store : Store) (todo left : List Access) (readers owners raisers : Nat)
    (p : Payload) : Prop :=
  ∃ done m, todo = done ++ left ∧ p = ⟨.writerFirst m, done.foldl Store.apply store⟩ ∧
    m.Balanced readers owners raisers

theorem progressed_refl (hb : l.Balanced readers owners raisers) (todo : List Access) :
    Progressed store todo todo readers owners raisers ⟨.writerFirst l, store⟩ :=
  ⟨[], l, rfl, rfl, hb⟩

/-- What is done to what is left is done to the whole. -/
theorem Progressed.trans (h : Progressed store todo left readers owners raisers p)
    (h' : Progressed p.store left left' readers owners' raisers' q) :
    Progressed store todo left' readers owners' raisers' q := by
  obtain ⟨done, m, rfl, rfl, -⟩ := h
  obtain ⟨done', m', rfl, rfl, hb⟩ := h'
  refine ⟨done ++ done', m', (List.append_assoc _ _ _).symm, ?_, hb⟩
  rw [List.foldl_append]

/-- What comes after the work in hand is left until then. -/
theorem Progressed.append (h : Progressed store todo left readers owners raisers p)
    (rest : List Access) :
    Progressed store (todo ++ rest) (left ++ rest) readers owners raisers p := by
  obtain ⟨done, m, rfl, hp, hb⟩ := h
  exact ⟨done, m, List.append_assoc _ _ _, hp, hb⟩

theorem access_meets (a : Access) (hb : l.Balanced readers owners raisers) :
    (Payload.access ⟨.writerFirst l, store⟩ a).Meets
      (fun q place => Progressed store [a] [place.access] readers
        (owners + place.isDraining.toNat) (raisers + place.hasRaised.toNat) q)
      fun q _ => Progressed store [a] [] readers owners raisers q := by
  rw [access, Stride.Meets.within_iff]
  apply (Cell.access_meets (c := ⟨l, store⟩) a hb).mono
  · intro d place hwait
    obtain ⟨rfl, hstore, hm⟩ := hwait
    exact ⟨[], d.lock, rfl, by rw [ofCell, hstore]; rfl, hm⟩
  · intro d _ hdone
    exact ⟨[a], d.lock, rfl, by rw [ofCell, hdone.1]; rfl, hdone.2⟩

theorem resume_meets {place : AccessWait} (few : raisers + 1 < 2 ^ 31)
    (hb : l.Balanced readers (owners + place.isDraining.toNat)
      (raisers + place.hasRaised.toNat)) :
    (Payload.resume ⟨.writerFirst l, store⟩ place).Meets
      (fun q place' => Progressed store [place.access] [place'.access] readers
        (owners + place'.isDraining.toNat) (raisers + place'.hasRaised.toNat) q)
      fun q _ => Progressed store [place.access] [] readers owners raisers q := by
  rw [resume, Stride.Meets.within_iff]
  apply (Cell.resume_meets (c := ⟨l, store⟩) few hb).mono
  · intro d place' hwait
    obtain ⟨hsame, hstore, hm⟩ := hwait
    exact ⟨[], d.lock, by rw [hsame]; rfl, by rw [ofCell, hstore]; rfl, hm⟩
  · intro d _ hdone
    exact ⟨[place.access], d.lock, rfl, by rw [ofCell, hdone.1]; rfl, hdone.2⟩

/-- A walk does its accesses one by one. -/
theorem walk_meets (n : Nat) (decisions : List Decision)
    (hb : l.Balanced readers owners raisers) :
    (walk n decisions ⟨.writerFirst l, store⟩).Meets
      (fun q w => Progressed store (workOf n decisions) w.work readers
        (owners + w.place.isDraining.toNat) (raisers + w.place.hasRaised.toNat) q)
      fun q _ => Progressed store (workOf n decisions) [] readers owners raisers q := by
  induction decisions generalizing n l store with
  | nil => exact progressed_refl hb []
  | cons d rest ih =>
      rw [walk, Stride.Meets.andThen_iff]
      apply (access_meets (accessOf n d) hb).mono
      · intro q place hwait
        exact hwait.append (workOf (n + 1) rest)
      · intro q _ hdone
        have hfirst := hdone.append (workOf (n + 1) rest)
        obtain ⟨done, m, -, rfl, hm⟩ := hdone
        apply (ih (n + 1) hm).mono
        · intro q' w hwait
          exact hfirst.trans hwait
        · intro q' _ hend
          exact hfirst.trans hend

theorem resumeWalk_meets {w : WalkWait} (few : raisers + 1 < 2 ^ 31)
    (hb : l.Balanced readers (owners + w.place.isDraining.toNat)
      (raisers + w.place.hasRaised.toNat)) :
    (Payload.resumeWalk ⟨.writerFirst l, store⟩ w).Meets
      (fun q w' => Progressed store w.work w'.work readers
        (owners + w'.place.isDraining.toNat) (raisers + w'.place.hasRaised.toNat) q)
      fun q _ => Progressed store w.work [] readers owners raisers q := by
  rw [resumeWalk, Stride.Meets.andThen_iff]
  apply (resume_meets few hb).mono
  · intro q place hwait
    exact hwait.append (workOf w.next w.rest)
  · intro q _ hdone
    have hfirst := hdone.append (workOf w.next w.rest)
    obtain ⟨done, m, -, rfl, hm⟩ := hdone
    apply (walk_meets w.next w.rest hm).mono
    · intro q' w' hwait
      exact hfirst.trans hwait
    · intro q' _ hend
      exact hfirst.trans hend

end Payload

/-! ## Calls -/

namespace Call

variable {store : Store} {l : Lock} {todo : List Access} {readers owners raisers : Nat}
variable {o : Object} {call : Call}

/-- A call on the payload pauses with part of its work done. -/
def Working (store : Store) (todo : List Access) (readers owners raisers : Nat) (o : Object)
    (call : Call) : Prop :=
  ∃ pc q, o = .payload q ∧ call = .onPayload pc ∧
    Payload.Progressed store todo pc.work readers (owners + pc.place.isDraining.toNat)
      (raisers + pc.place.hasRaised.toNat) q

/-- A call on the payload ends with all of its work done. -/
def Worked (store : Store) (todo : List Access) (readers owners raisers : Nat) (o : Object)
    (ending : Ending) : Prop :=
  ∃ q, o = .payload q ∧ (∀ name mode, ending ≠ .guard name mode) ∧
    Payload.Progressed store todo [] readers owners raisers q

theorem enter_meets (a : Access) (hb : l.Balanced readers owners raisers) :
    (strideOnPayload (PayloadCall.enter ⟨.writerFirst l, store⟩ a)).Meets
      (Working store [a] readers owners raisers) (Worked store [a] readers owners raisers) := by
  rw [meets_strideOnPayload, PayloadCall.enter, Stride.Meets.relabel_iff]
  apply (Payload.access_meets a hb).mono
  · intro q place hwait
    exact ⟨.access place, q, rfl, rfl, hwait⟩
  · intro q _ hdone
    exact ⟨q, rfl, by simp, hdone⟩

theorem walkThrough_meets (plan : Plan) (hb : l.Balanced readers owners raisers) :
    (strideOnPayload (PayloadCall.walkThrough ⟨.writerFirst l, store⟩ plan)).Meets
      (Working store (Payload.workOf 0 plan.decisions) readers owners raisers)
      (Worked store (Payload.workOf 0 plan.decisions) readers owners raisers) := by
  rw [meets_strideOnPayload, PayloadCall.walkThrough, Stride.Meets.relabel_iff]
  apply (Payload.walk_meets 0 plan.decisions hb).mono
  · intro q w hwait
    exact ⟨.walk plan.reads plan.writes w, q, rfl, rfl, hwait⟩
  · intro q _ hdone
    exact ⟨q, rfl, by simp, hdone⟩

/-- The next stride of a call on the payload takes its work further. -/
theorem resume_meets (few : raisers + 1 < 2 ^ 31)
    (h : Working store todo readers owners raisers o call) :
    ∃ s, call.resume? o = some s ∧ s.Meets (Working store todo readers owners raisers)
      (Worked store todo readers owners raisers) := by
  obtain ⟨pc, q, rfl, rfl, hp⟩ := h
  have hp' := hp
  obtain ⟨done, m, -, rfl, hb⟩ := hp'
  refine ⟨_, rfl, ?_⟩
  rw [meets_strideOnPayload]
  cases pc with
  | access place =>
      rw [PayloadCall.resume, Stride.Meets.relabel_iff]
      apply (Payload.resume_meets few hb).mono
      · intro q place' hwait
        exact ⟨.access place', q, rfl, rfl, hp.trans hwait⟩
      · intro q _ hdone
        exact ⟨q, rfl, by simp, hp.trans hdone⟩
  | walk reads writes w =>
      rw [PayloadCall.resume, Stride.Meets.relabel_iff]
      apply (Payload.resumeWalk_meets few hb).mono
      · intro q w' hwait
        exact ⟨.walk reads writes w', q, rfl, rfl, hp.trans hwait⟩
      · intro q _ hdone
        exact ⟨q, rfl, by simp, hp.trans hdone⟩

theorem goOn_meets_work (few : raisers + 1 < 2 ^ 31)
    (h : Working store todo readers owners raisers o call) (turns : Nat) :
    ∃ t, goOn turns (.pauseAt o call) = some t ∧
      t.Meets (Working store todo readers owners raisers)
        (Worked store todo readers owners raisers) :=
  goOn_meets (fun _ => Working store todo readers owners raisers)
    (fun _ _ _ hworking => resume_meets few hworking) turns 0 _ h

end Call

/-! ## Steps -/

namespace Step

/-- A step that reads, writes or walks a payload. -/
def isAccess : Step → Bool
  | .read _ | .write _ _ | .walk _ => true
  | _ => false

/-- The accesses that a step on a payload asks for. -/
def work : Step → List Access
  | .read _ => [.read]
  | .write _ value => [.write value]
  | .walk request =>
    match request.draw? with
    | some plan => Payload.workOf 0 plan.decisions
    | none => []
  | _ => []

/-- The first stride of a step on a payload. A walk has none if its plan is too
long to be drawn. -/
def stride? (p : Payload) : Step → Option (Stride Object Call Ending)
  | .read _ => some (Call.strideOnPayload (PayloadCall.enter p .read))
  | .write _ value => some (Call.strideOnPayload (PayloadCall.enter p (.write value)))
  | .walk request =>
    match request.draw? with
    | some plan => some (Call.strideOnPayload (PayloadCall.walkThrough p plan))
    | none => none
  | _ => none

variable {store : Store} {l : Lock} {readers owners raisers : Nat} {step : Step} {p : Payload}

theorem isResume_of_isAccess (h : step.isAccess = true) : step.isResume = false := by
  cases step with
  | resume turns => cases h
  | _ => rfl

theorem work_eq_nil (h : step.stride? p = none) : step.work = [] := by
  cases step with
  | read name => cases h
  | write name value => cases h
  | walk request =>
      cases hdraw : request.draw? with
      | some plan =>
          rw [stride?, hdraw] at h
          cases h
      | none => rw [work, hdraw]
  | _ => rfl

theorem stride_meets {went : Stride Object Call Ending} (hb : l.Balanced readers owners raisers)
    (hs : step.stride? ⟨.writerFirst l, store⟩ = some went) :
    went.Meets (Call.Working store step.work readers owners raisers)
      (Call.Worked store step.work readers owners raisers) := by
  cases step with
  | read name =>
      cases hs
      exact Call.enter_meets .read hb
  | write name value =>
      cases hs
      exact Call.enter_meets (.write value) hb
  | walk request =>
      cases hdraw : request.draw? with
      | some plan =>
          rw [stride?, hdraw] at hs
          cases hs
          rw [work, hdraw]
          exact Call.walkThrough_meets plan hb
      | none =>
          rw [stride?, hdraw] at hs
          cases hs
  | _ => cases hs

end Step

/-- A step on a payload, of an actor that is not stopped. -/
theorem Session.take_access {s : Session} {p : Payload} {step : Step} {key actor : Nat}
    (ho : s.objects.get? key = some (.payload p)) (hfree : s.stopped.get? actor = none)
    (hstep : step.isAccess = true) :
    s.take ⟨actor, key, step⟩ =
      match step.stride? p with
      | some went => s.settle actor key 1 went
      | none => (s, .exceeded, []) := by
  cases step with
  | read name =>
      rw [take_of_free hfree ho rfl]
      rfl
  | write name value =>
      rw [take_of_free hfree ho rfl]
      rfl
  | walk request =>
      rw [take_of_free hfree ho rfl, act, Step.stride?]
      cases request.draw? <;> rfl
  | _ => cases hstep

end ReaderWriter
