import ReaderWriter.Proofs.Lock.Misuse
import ReaderWriter.Proofs.Payload.Access

/-!
# Where a call breaks the contract

A call is foretold what it will break as the lock is that it works on. An access breaks
the contract like the reader in it, and in one way of its own: it comes out of its drain
and finds that somebody has given the flag back. The store has changed by then.

A call that is let go on breaks the contract in its first stride or not at all, since
nobody else moves between its strides.
-/

namespace ReaderWriter

/-! ## Accesses -/

/-- Where an access ends that breaks the contract when it is let go on. -/
def AccessWait.breach? (c : Cell) : AccessWait → Option (Cell × Violation × List Record)
  | .looking w => (w.breach? c.lock).map fun u => (c.withLock u.1, u.2)
  | place =>
    if place.isDraining = true ∧ c.lock.flag = false ∧ c.lock.isEmpty = true then
      some ({ c with store := c.store.apply place.access }, .notWriteLocked, [])
    else none

namespace Cell

variable {c : Cell} {a : Access}

/-- An access under the flag gives it back. -/
theorem commit_kept {wait : Cell → AccessWait → Prop} (hf : c.lock.flag = true) :
    (c.commit a).Meets wait fun _ _ => True := by
  rw [commit, Stride.Meets.within_iff, Lock.release, if_pos hf]
  trivial

/-- An access that waits for the write lock finds the flag its own when it gets out of
the wait, unless it stood in the drain and the flag has been given back. -/
theorem write_foretold (place : WriteWait) {embed : WriteWait → AccessWait}
    (hembed : ∀ w d, (w = .drain → d.lock.isEmpty = false) → (embed w).breach? d = none) :
    (((place.resume c.lock).within c.withLock).andThen embed fun _ d => d.commit a).Foretold
      (if place.isDrain = true ∧ c.lock.flag = false ∧ c.lock.isEmpty = true then
          some ({ c with store := c.store.apply a }, .notWriteLocked, [])
        else none)
      fun d w => w.breach? d = none := by
  split
  · next hgone =>
      obtain ⟨hdrain, hf, he⟩ := hgone
      cases place with
      | drain =>
          rw [WriteWait.resume, Lock.writeDrain, if_pos he]
          have hrelease : c.lock.release = (c.lock, .error .notWriteLocked) :=
            Lock.release_eq_error_iff.mpr ⟨hf, rfl, rfl⟩
          change (c.commit a).Foretold _ _
          rw [commit, hrelease]
          exact Stride.foretold_violated
      | _ => cases hdrain
  · next hown =>
      -- Past the earlier waits the flag is the writer's own, and in the drain it is still.
      apply Stride.foretold_none_iff.mpr
      rw [Stride.Meets.andThen_iff, Stride.Meets.within_iff]
      apply (place.resume_meets c.lock).mono
      · exact fun m w => hembed w (c.withLock m)
      · rintro m - ⟨rfl, hempty⟩
        apply commit_kept
        show (place.owning c.lock).flag = true
        rw [WriteWait.owning]
        split
        · next hdrain =>
            obtain rfl := hdrain
            simpa [WriteWait.isDrain, hempty rfl] using hown
        · rfl

theorem putting_steady (value : UInt64) {w : WriteWait} {d : Cell}
    (h : w = .drain → d.lock.isEmpty = false) :
    (AccessWait.putting value w).breach? d = none := by
  cases w with
  | drain => simp [AccessWait.breach?, h rfl]
  | _ => rfl

theorem taking_steady {w : WriteWait} {d : Cell} (h : w = .drain → d.lock.isEmpty = false) :
    (AccessWait.taking w).breach? d = none := by
  cases w with
  | drain => simp [AccessWait.breach?, h rfl]
  | _ => rfl

theorem looking_steady {w : ReadWait} {d : Cell} (h : w.breach? d.lock = none) :
    (AccessWait.looking w).breach? d = none := by
  rw [AccessWait.breach?, h]
  rfl

/-- A read that has its read lock breaks nothing any more. -/
theorem look_kept (c : Cell) :
    c.look.Meets (fun d w => w.breach? d = none) fun _ _ => True := by
  rw [look]
  split
  · trivial
  · split
    · next lock hgranted =>
        apply commit_kept
        rw [Lock.tryUpgrade_eq] at hgranted
        split_ifs at hgranted <;> cases hgranted
        rfl
    · next lock why hrefused =>
        have hwrite := write_foretold (c := c.withLock lock.depart) (a := .read) .barrier
          fun _ _ => taking_steady
        exact Stride.foretold_none_iff.mp hwrite

theorem access_kept (c : Cell) (a : Access) :
    (c.access a).Meets (fun d w => w.breach? d = none) fun _ _ => True := by
  cases a with
  | write value =>
      have hwrite := write_foretold (c := c) (a := .write value) .barrier
        fun _ _ => putting_steady value
      exact Stride.foretold_none_iff.mp hwrite
  | read =>
      rw [access, Stride.Meets.andThen_iff, Stride.Meets.within_iff]
      apply c.lock.read_meets.mono
      · exact fun m _ => looking_steady (d := c.withLock m)
      · exact fun m _ _ => look_kept (c.withLock m)

theorem resume_foretold (c : Cell) (place : AccessWait) :
    (c.resume place).Foretold (place.breach? c) fun d w => w.breach? d = none := by
  cases place with
  | putting value w => exact write_foretold w fun _ _ => putting_steady value
  | taking w => exact write_foretold w fun _ _ => taking_steady
  | looking w =>
      have hlock : (w.resume c.lock).Foretold (w.breach? c.lock)
          fun m w' => (AccessWait.looking w').breach? (c.withLock m) = none :=
        (w.resume_foretold c.lock).mono fun m _ => looking_steady (d := c.withLock m)
      exact hlock.within.andThen fun _ _ => look_kept _

end Cell

/-! ## Payloads -/

namespace Payload

/-- Where an access to a payload ends that breaks the contract when it is let go on. -/
def breach? (p : Payload) (place : AccessWait) : Option (Payload × Violation × List Record) :=
  match p.scheme with
  | .writerFirst lock => (place.breach? ⟨lock, p.store⟩).map fun u => (ofCell u.1, u.2)
  | _ => none

/-- A payload is as steady as the cell that it is. -/
theorem breach?_ofCell {d : Cell} {place : AccessWait} (h : place.breach? d = none) :
    (ofCell d).breach? place = none := by
  change (place.breach? d).map _ = none
  rw [h]
  rfl

theorem access_kept (p : Payload) (a : Access) :
    (p.access a).Meets (fun q place => q.breach? place = none) fun _ _ => True := by
  rw [access]
  split
  · next lock hscheme =>
      rw [Stride.Meets.within_iff]
      exact (Cell.access_kept _ a).mono (fun _ _ => breach?_ofCell) fun _ _ => id
  · trivial

theorem resume_foretold (p : Payload) (place : AccessWait) :
    (p.resume place).Foretold (p.breach? place) fun q place' => q.breach? place' = none := by
  obtain ⟨scheme, store⟩ := p
  cases scheme with
  | writerFirst lock =>
      have hcell : (Cell.resume ⟨lock, store⟩ place).Foretold (place.breach? ⟨lock, store⟩)
          fun d place' => (ofCell d).breach? place' = none :=
        (Cell.resume_foretold ⟨lock, store⟩ place).mono fun _ _ => breach?_ofCell
      exact hcell.within
  | _ => exact Stride.foretold_none_iff.mpr trivial

theorem walk_kept (n : Nat) (decisions : List Decision) (p : Payload) :
    (walk n decisions p).Meets (fun q w => q.breach? w.place = none) fun _ _ => True := by
  induction decisions generalizing n p with
  | nil => trivial
  | cons d rest ih =>
      rw [walk, Stride.Meets.andThen_iff]
      exact (p.access_kept _).mono (fun _ _ => id) fun q _ _ => ih (n + 1) q

/-- Only the access in hand of a walk may break anything. -/
theorem resumeWalk_foretold (p : Payload) (w : WalkWait) :
    (p.resumeWalk w).Foretold (p.breach? w.place) fun q w' => q.breach? w'.place = none :=
  (p.resume_foretold w.place).andThen fun _ _ => walk_kept _ _ _

end Payload

/-! ## Calls -/

/-- Where a call on a lock ends that breaks the contract when it is let go on. -/
def LockCall.breach? (l : Lock) : LockCall → Option (Lock × Violation × List Record)
  | .read _ place => place.breach? l
  | .write _ _ | .awaitEmpty | .awaitLowered => none

namespace LockCall

theorem untilEmpty_kept (l : Lock) :
    (untilEmpty l).Meets (fun m call => call.breach? m = none) fun _ _ => True := by
  rw [untilEmpty, Stride.Meets.relabel_iff, Lock.awaitEmpty]
  split <;> trivial

theorem untilLowered_kept (l : Lock) :
    (untilLowered l).Meets (fun m call => call.breach? m = none) fun _ _ => True := by
  rw [untilLowered, Stride.Meets.relabel_iff, Lock.awaitLowered]
  split <;> trivial

theorem write_kept (guard? : Option String) (place : WriteWait) (l : Lock) :
    (resume l (.write guard? place)).Meets (fun m call => call.breach? m = none)
      fun _ _ => True := by
  rw [resume, Stride.Meets.relabel_iff]
  exact (place.resume_meets l).mono (fun _ _ _ => rfl) fun _ _ _ => trivial

/-- A call for the lock breaks nothing before it stops. -/
theorem acquire_kept (guard? : Option String) (mode : Mode) (l : Lock) :
    (acquire guard? mode l).Meets (fun m call => call.breach? m = none) fun _ _ => True := by
  cases mode with
  | read =>
      rw [acquire, Stride.Meets.relabel_iff]
      exact l.read_meets
  | write => exact write_kept guard? .barrier l

theorem resume_foretold (call : LockCall) (l : Lock) :
    (call.resume l).Foretold (call.breach? l) fun m call' => call'.breach? m = none := by
  cases call with
  | read guard? place => exact (place.resume_foretold l).relabel
  | write guard? place => exact Stride.foretold_none_iff.mpr (write_kept guard? place l)
  | awaitEmpty => exact Stride.foretold_none_iff.mpr (untilEmpty_kept l)
  | awaitLowered => exact Stride.foretold_none_iff.mpr (untilLowered_kept l)

end LockCall

namespace PayloadCall

theorem enter_kept (p : Payload) (a : Access) :
    (enter p a).Meets (fun q call => q.breach? call.place = none) fun _ _ => True := by
  rw [enter, Stride.Meets.relabel_iff]
  exact p.access_kept a

theorem walkThrough_kept (p : Payload) (plan : Plan) :
    (walkThrough p plan).Meets (fun q call => q.breach? call.place = none) fun _ _ => True := by
  rw [walkThrough, Stride.Meets.relabel_iff]
  exact Payload.walk_kept 0 plan.decisions p

theorem resume_foretold (call : PayloadCall) (p : Payload) :
    (call.resume p).Foretold (p.breach? call.place) fun q call' => q.breach? call'.place = none := by
  cases call with
  | access place => exact (p.resume_foretold place).relabel
  | walk reads writes w => exact (p.resumeWalk_foretold w).relabel

end PayloadCall

namespace Call

/-- Where a call ends that breaks the contract when it is let go on, if the object is one
it can be on. -/
def breach? (o : Object) : Call → Option (Object × Violation × List Record)
  | .onLock call =>
    o.lock?.bind fun l => (call.breach? l).map fun u => (o.withLock u.1, u.2)
  | .onPayload call =>
    match o with
    | .payload p => (p.breach? call.place).map fun u => (.payload u.1, u.2)
    | _ => none

variable {o : Object} {call : Call} {t : Stride Object Call Ending}

theorem breach?_onLock {l : Lock} (hl : o.lock? = some l) (call : LockCall) :
    (Call.onLock call).breach? o = (call.breach? l).map fun u => (o.withLock u.1, u.2) := by
  rw [breach?, hl]
  rfl

/-- The next stride of a call breaks what is foretold. -/
theorem resume?_foretold (h : call.resume? o = some t) :
    t.Foretold (call.breach? o) fun o' call' => call'.breach? o' = none := by
  cases call with
  | onLock call =>
      obtain ⟨l, hl, rfl⟩ := Option.map_eq_some_iff.mp h
      have hlock : (call.resume l).Foretold (call.breach? l)
          fun m call' => (Call.onLock call').breach? (o.withLock m) = none := by
        apply (call.resume_foretold l).mono
        intro m call' hsteady
        rw [breach?_onLock (Object.lock?_withLock_of hl m), hsteady]
        rfl
      rw [breach?_onLock hl]
      exact hlock.within.relabel
  | onPayload call =>
      cases o with
      | payload p =>
          cases h
          have hpayload : (call.resume p).Foretold (p.breach? call.place)
              fun q call' => (Call.onPayload call').breach? (.payload q) = none := by
            apply (call.resume_foretold p).mono
            intro q call' hsteady
            rw [breach?, hsteady]
            rfl
          exact hpayload.within.relabel
      | _ => cases h

/-- A call that is not on its object cannot be let go on. -/
theorem breach?_of_resume? (h : call.resume? o = none) : call.breach? o = none := by
  cases call with
  | onLock call =>
      rw [breach?, Option.map_eq_none_iff.mp h]
      rfl
  | onPayload call =>
      cases o with
      | payload p => cases h
      | _ => rfl

/-- A call that has come to a pause can be let go on for any number of strides and breaks
nothing more. -/
theorem goOn_kept (turns : Nat)
    (h : ∀ call, t.progress = .paused call → call.breach? t.state = none) :
    (goOn turns t).bind Stride.breach? = t.breach? := by
  induction turns generalizing t with
  | zero => rfl
  | succ turns ih =>
      obtain ⟨o', log, progress⟩ := t
      cases progress with
      | finished ending => rfl
      | violated breach => rfl
      | paused call' =>
          rw [goOn]
          dsimp only
          cases hnext : call'.resume? o' with
          | none => rfl
          | some u =>
              obtain ⟨hbreach, hpauses⟩ := resume?_foretold hnext
              rw [h call' rfl] at hbreach
              -- What was logged before does not show in a stride that breaks nothing.
              have hlogged : Stride.breach? { u with log := log ++ u.log } = none := by
                obtain ⟨m, log', progress⟩ := u
                cases progress with
                | violated breach => cases hbreach
                | _ => rfl
              exact (ih (t := { u with log := log ++ u.log }) hpauses).trans hlogged

/-- A call that is let go on breaks what is foretold, in its first stride. -/
theorem goOn_breach? (turns : Nat) (o : Object) (call : Call) :
    (goOn (turns + 1) (.pauseAt o call)).bind Stride.breach? = call.breach? o := by
  cases hnext : call.resume? o with
  | none =>
      simp only [goOn, Stride.pauseAt, hnext, Option.bind_none]
      exact (breach?_of_resume? hnext).symm
  | some t =>
      obtain ⟨hbreach, hpauses⟩ := resume?_foretold hnext
      rw [goOn_succ hnext, goOn_kept turns hpauses]
      exact hbreach

end Call

end ReaderWriter
