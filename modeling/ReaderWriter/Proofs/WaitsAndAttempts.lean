import ReaderWriter.Proofs.Lock.Obstacle
import ReaderWriter.Proofs.Session.Moves
import ReaderWriter.Proofs.Session.Resumption
import ReaderWriter.Proofs.Session.Script

/-!
# Waiting and not waiting

A call for the lock and an attempt at it ask for the same thing, one by a sequence of
waits and the other by a cascade of tests. In every state of the lock they agree: the
call returns at once just if the attempt succeeds, and then nothing tells them apart;
and if the attempt is refused, its reason names the wait that the call stops in.

A writer that is resumed goes by the state of the lock at that time. It returns just if
all the waits are over from its own onwards, and it is never found in an earlier one.
-/

namespace ReaderWriter

/-- The call of a writer that stands in a wait. -/
def Stopped.writer (key pauses : Nat) (guard? : Option String) (place : WriteWait) : Stopped :=
  ⟨key, pauses, .onLock (.write guard? place)⟩

namespace Session

variable {s : Session} {key actor pauses : Nat} {o : Object} {l m : Lock}
variable {guard? : Option String} {place : WriteWait} {script : List Turn}

/-! ## Calls that begin -/

/-- An actor's call for the lock of an object agrees with its attempt, the lock
showing the words `l`. -/
structure Concurs (s : Session) (actor key : Nat) (o : Object) (l : Lock) : Prop where
  /-- The call returns without stopping just if the attempt succeeds. -/
  returns : ∀ mode, (s.step ⟨actor, key, .waiting (.acquire mode)⟩).2.reply = .ok ↔
    (s.step ⟨actor, key, .instant (.tryAcquire mode)⟩).2.reply = .ok
  /-- Then it does not matter which of them was made. -/
  same : ∀ mode, (s.step ⟨actor, key, .instant (.tryAcquire mode)⟩).2.reply = .ok →
    s.take ⟨actor, key, .waiting (.acquire mode)⟩ =
      s.take ⟨actor, key, .instant (.tryAcquire mode)⟩
  /-- A reader that stops leaves the lock as the attempt leaves it that is refused. -/
  reader : ∀ why, (s.step ⟨actor, key, .instant (.tryAcquire .read)⟩).2.reply = .busy why →
    ∃ m, s.take ⟨actor, key, .instant (.tryAcquire .read)⟩ = s.leaving key o m (.busy why) ∧
      s.take ⟨actor, key, .waiting (.acquire .read)⟩ =
        s.halting actor key 1 o m (.read none (.standing 1))
  /-- A writer stops in a wait just if the wait's obstacle is the reason. -/
  stops : ∀ w, (s.step ⟨actor, key, .waiting (.acquire .write)⟩).1.stopped.get? actor =
      some (.writer key 1 none w) ↔
    (s.step ⟨actor, key, .instant (.tryAcquire .write)⟩).2.reply = .busy w.obstacle
  /-- It has taken the flag if it waits for the readers, and changed nothing otherwise. -/
  writer : ∀ w : WriteWait,
    (s.step ⟨actor, key, .instant (.tryAcquire .write)⟩).2.reply = .busy w.obstacle →
      s.take ⟨actor, key, .instant (.tryAcquire .write)⟩ = s.leaving key o l (.busy w.obstacle) ∧
        s.take ⟨actor, key, .waiting (.acquire .write)⟩ =
          s.halting actor key 1 o (if w = .drain then { l with flag := true } else l)
            (.write none w)

/-- A call for the lock that returns at once leaves what an attempt leaves that succeeds. -/
theorem settle_returned (hfree : s.stopped.get? actor = none) (mode : Mode) :
    s.settle actor key pauses (Call.strideOnLock o (.done m (.ofHold none mode))) =
      s.leaving key o m .ok := by
  have herase := Registry.erase_eq_self hfree
  change ({ s.withObject key (o.withLock m) with stopped := s.stopped.erase actor }, _, _) = _
  rw [herase]
  rfl

/-- The flag is what makes a reader's attempt fail, and what makes its call stop. -/
theorem take_reader (hfree : s.stopped.get? actor = none) (ho : s.objects.get? key = some o)
    (hl : o.lock? = some l) :
    s.take ⟨actor, key, .instant (.tryAcquire .read)⟩ =
        (if l.flag then s.leaving key o l.arrive.depart (.busy .written)
          else s.leaving key o l.arrive .ok) ∧
      s.take ⟨actor, key, .waiting (.acquire .read)⟩ =
        if l.flag then s.halting actor key 1 o l.arrive.depart (.read none (.standing 1))
        else s.leaving key o l.arrive .ok := by
  rw [take_instant _ hfree ho hl, take_waiting _ hfree ho hl, Instant.run, Lock.tryAcquire,
    Lock.tryRead, Waiting.start, LockCall.acquire, Lock.read, Lock.arrive_flag]
  cases hf : l.flag with
  | true => exact ⟨rfl, rfl⟩
  | false => exact ⟨rfl, settle_returned hfree .read⟩

/-- The first wait that is not over is what makes a writer's attempt fail, and what makes
its call stop. -/
theorem take_writer (hfree : s.stopped.get? actor = none) (ho : s.objects.get? key = some o)
    (hl : o.lock? = some l) :
    s.take ⟨actor, key, .instant (.tryAcquire .write)⟩ =
        (match WriteWait.barrier.halt? l with
        | none => s.leaving key o { l with flag := true } .ok
        | some w => s.leaving key o l (.busy w.obstacle)) ∧
      s.take ⟨actor, key, .waiting (.acquire .write)⟩ =
        match WriteWait.barrier.halt? l with
        | none => s.leaving key o { l with flag := true } .ok
        | some w => s.halting actor key 1 o (if w = .drain then { l with flag := true } else l)
            (.write none w) := by
  have hwrite : l.write = WriteWait.barrier.resume l := rfl
  rw [take_instant _ hfree ho hl, take_waiting _ hfree ho hl, Instant.run, Lock.tryAcquire,
    Lock.tryWrite_eq_halt, Waiting.start, LockCall.acquire, hwrite, WriteWait.resume_eq]
  cases WriteWait.barrier.halt? l with
  | none => exact ⟨rfl, settle_returned hfree .write⟩
  | some w => exact ⟨rfl, rfl⟩

theorem concurs (hfree : s.stopped.get? actor = none) (ho : s.objects.get? key = some o)
    (hl : o.lock? = some l) : s.Concurs actor key o l := by
  obtain ⟨htryRead, hread⟩ := take_reader hfree ho hl
  obtain ⟨htryWrite, hwrite⟩ := take_writer hfree ho hl
  refine ⟨?_, ?_, ?_, ?_, ?_⟩
  · intro mode
    cases mode with
    | read =>
        simp only [step, htryRead, hread]
        cases l.flag <;> simp [leaving, halting]
    | write =>
        simp only [step, htryWrite, hwrite]
        cases WriteWait.barrier.halt? l <;> simp [leaving, halting]
  · intro mode
    cases mode with
    | read =>
        simp only [step, htryRead, hread]
        cases l.flag <;> simp [leaving]
    | write =>
        simp only [step, htryWrite, hwrite]
        cases WriteWait.barrier.halt? l <;> simp [leaving]
  · intro why
    simp only [step, htryRead, hread]
    cases l.flag with
    | true =>
        intro hbusy
        exact ⟨l.arrive.depart, congrArg (s.leaving key o _) hbusy, rfl⟩
    | false =>
        intro hok
        cases hok
  · intro w
    simp only [step, htryWrite, hwrite]
    cases WriteWait.barrier.halt? l with
    | none => simp [leaving, withObject, hfree]
    | some w' => simp [leaving, halting, Stopped.writer, WriteWait.obstacle_inj]
  · intro w
    simp only [step, htryWrite, hwrite]
    cases WriteWait.barrier.halt? l with
    | none =>
        intro hok
        cases hok
    | some w' =>
        intro hbusy
        obtain rfl := WriteWait.obstacle_inj.mp (Reply.busy.inj hbusy)
        exact ⟨rfl, rfl⟩

/-! ## Writers that are resumed -/

/-- What comes of a stopped writer in a turn that resumes it, the lock showing the words
`l`. -/
structure GoesOn (s : Session) (actor key pauses turns : Nat) (guard? : Option String)
    (place : WriteWait) (l : Lock) (t : Turn) : Prop where
  /-- It returns just if the waits that lie before it are over, with its own. -/
  returns : (s.step t).2.reply = .ok ↔
    ∀ w : WriteWait, place.rank ≤ w.rank → w.isOver l = true
  /-- Otherwise it stops in the first of them that is not. -/
  stops : (s.step t).2.reply ≠ .ok →
    ∃ w : WriteWait, (s.step t).1.stopped.get? actor =
        some (.writer key (pauses + max turns 1) guard? w) ∧
      place.rank ≤ w.rank ∧ w.isOver l = false ∧
      ∀ w' : WriteWait, place.rank ≤ w'.rank → w'.rank < w.rank → w'.isOver l = true

/-- A resumed writer goes as far as the waits are over. -/
theorem take_resume_writer (number turns : Nat)
    (hc : s.stopped.get? actor = some (.writer key pauses guard? place))
    (ho : s.objects.get? key = some o) (hl : o.lock? = some l) :
    s.take ⟨actor, number, .resume turns⟩ =
      match place.halt? l with
      | none => s.settle actor key (pauses + max turns 1)
          (Call.strideOnLock o (.done (place.owning l) (.ofHold guard? .write)))
      | some w => s.halting actor key (pauses + max turns 1) o
          (if w = .drain then place.owning l else l) (.write guard? w) := by
  obtain ⟨n, hn⟩ := Call.exists_turns turns
  have hgo : Call.goOn (n + 1) (.pauseAt o (.onLock (.write guard? place))) = _ :=
    Call.goOn_write n hl
  rw [← hn, LockCall.resume, WriteWait.resume_eq] at hgo
  rw [take_goOn number ho hc hgo]
  cases place.halt? l <;> rfl

theorem goesOn (number turns : Nat)
    (hc : s.stopped.get? actor = some (.writer key pauses guard? place))
    (ho : s.objects.get? key = some o) (hl : o.lock? = some l) :
    s.GoesOn actor key pauses turns guard? place l ⟨actor, number, .resume turns⟩ := by
  have htake := take_resume_writer number turns hc ho hl
  cases hhalt : place.halt? l with
  | none =>
      rw [hhalt] at htake
      have hreply : (s.step ⟨actor, number, .resume turns⟩).2.reply = .ok := by
        rw [step, htake]
        cases guard? <;> rfl
      exact ⟨iff_of_true hreply (WriteWait.halt?_eq_none_iff.mp hhalt), absurd hreply⟩
  | some w =>
      rw [hhalt] at htake
      have hreply : (s.step ⟨actor, number, .resume turns⟩).2.reply ≠ .ok := by
        rw [step, htake]
        intro hok
        cases hok
      have hwait := WriteWait.of_halt? hhalt
      refine ⟨iff_of_false hreply ?_, fun _ => ⟨w, ?_, hwait⟩⟩
      · intro hover
        exact Bool.false_ne_true (hwait.2.1.symm.trans (hover w hwait.1))
      · rw [step, htake]
        exact Registry.get?_insert_self _ _ _

/-- A turn that resumes a stopped writer ends its call or takes it onwards. -/
theorem take_resume_onward (number turns : Nat)
    (hc : s.stopped.get? actor = some (.writer key pauses guard? place)) :
    (s.take ⟨actor, number, .resume turns⟩).1.stopped.get? actor = none ∨
      ∃ pauses' w, (s.take ⟨actor, number, .resume turns⟩).1.stopped.get? actor =
          some (.writer key pauses' guard? w) ∧ place.rank ≤ w.rank := by
  -- Where there is no lock to go on with, the writer stays as it is.
  cases ho : s.objects.get? key with
  | none =>
      rw [take_resume hc, resume, Stopped.writer, ho]
      exact .inr ⟨pauses, place, hc, Nat.le_refl _⟩
  | some o =>
      cases hl : o.lock? with
      | none =>
          obtain ⟨n, hn⟩ := Call.exists_turns turns
          have hgo : Call.goOn (n + 1) (.pauseAt o (.onLock (.write guard? place))) = none := by
            simp [Call.goOn, Stride.pauseAt, Call.resume?, hl]
          rw [take_resume hc, resume, Stopped.writer, ho]
          dsimp only
          rw [hn, hgo]
          exact .inr ⟨pauses, place, hc, Nat.le_refl _⟩
      | some l =>
          rw [take_resume_writer number turns hc ho hl]
          cases hhalt : place.halt? l with
          | none =>
              left
              rw [settle_get?_self]
              rfl
          | some w =>
              right
              exact ⟨_, w, Registry.get?_insert_self _ _ _, (WriteWait.of_halt? hhalt).1⟩

/-- Whoever takes a turn, a stopped writer does not come back to an earlier wait. -/
theorem step_onward (t : Turn)
    (hc : s.stopped.get? actor = some (.writer key pauses guard? place)) :
    (s.step t).1.stopped.get? actor = none ∨
      ∃ pauses' w, (s.step t).1.stopped.get? actor = some (.writer key pauses' guard? w) ∧
        place.rank ≤ w.rank := by
  by_cases ha : actor = t.actor
  · obtain ⟨a, number, st⟩ := t
    obtain rfl : actor = a := ha
    obtain ⟨turns, rfl⟩ | hr := st.resume_or_not
    · exact take_resume_onward number turns hc
    · rw [step, take_of_stopped hc hr]
      exact .inr ⟨pauses, place, hc, Nat.le_refl _⟩
  · exact .inr ⟨pauses, place, (take_stopped_of_ne ha).trans hc, Nat.le_refl _⟩

/-- A writer that has not returned meanwhile stands where it stood, or further on. -/
theorem after_onward (hc : s.stopped.get? actor = some (.writer key pauses guard? place))
    (hstays : Script.Throughout (fun s t => (s.step t).1)
      (fun s => s.stopped.get? actor ≠ none) s script) :
    ∃ pauses' w, (s.after script).stopped.get? actor = some (.writer key pauses' guard? w) ∧
      place.rank ≤ w.rank := by
  induction script generalizing s pauses place with
  | nil => exact ⟨pauses, place, hc, Nat.le_refl _⟩
  | cons t rest ih =>
      obtain hnone | ⟨pauses₁, w₁, hcall, hrank₁⟩ := step_onward t hc
      · exact absurd hnone hstays.2.start
      · obtain ⟨pauses₂, w₂, hafter, hrank₂⟩ := ih hcall hstays.2
        exact ⟨pauses₂, w₂, hafter, Nat.le_trans hrank₁ hrank₂⟩

/-! ## Both -/

/-- Calls and attempts agree on an object whose lock shows the words `l`, and calls that
were stopped go on accordingly. -/
structure Corresponds (s : Session) (key : Nat) (o : Object) (l : Lock) : Prop where
  begins : ∀ actor, s.stopped.get? actor = none → s.Concurs actor key o l
  resumed : ∀ actor pauses guard? place,
    s.stopped.get? actor = some (.writer key pauses guard? place) →
      ∀ number turns,
        s.GoesOn actor key pauses turns guard? place l ⟨actor, number, .resume turns⟩
  onward : ∀ actor pauses guard? place,
    s.stopped.get? actor = some (.writer key pauses guard? place) →
      ∀ script, Script.Throughout (fun s t => (s.step t).1)
          (fun s => s.stopped.get? actor ≠ none) s script →
        ∃ pauses' w, (s.after script).stopped.get? actor = some (.writer key pauses' guard? w) ∧
          place.rank ≤ w.rank

/-- In every state of a lock, and in every state of the script around it, a call comes to
what an attempt comes to, as far as an attempt goes. -/
theorem waits_match_attempts (ho : s.objects.get? key = some o) (hl : o.lock? = some l) :
    s.Corresponds key o l where
  begins _ hfree := concurs hfree ho hl
  resumed _ _ _ _ hc number turns := goesOn number turns hc ho hl
  onward _ _ _ _ hc _ hstays := after_onward hc hstays

/-- A vector whose lock has one reader, and a barrier as far below zero as it goes. -/
def slack : Object := .vector ⟨4, 3, -2147483648, false⟩ [1]

/-- A writer stops in the drain wait, where an attempt is told of the readers. -/
theorem waits_match_attempts_slack :
    let s := start slack
    s.take ⟨0, 0, .waiting (.acquire .write)⟩ =
        s.halting 0 0 1 slack ⟨4, 3, -2147483648, true⟩ (.write none .drain) ∧
      (s.step ⟨0, 0, .instant (.tryAcquire .write)⟩).2.reply = .busy .readers := by
  intro s
  have hboth : s.Corresponds 0 slack ⟨4, 3, -2147483648, false⟩ := waits_match_attempts rfl rfl
  have hbusy : (s.step ⟨0, 0, .instant (.tryAcquire .write)⟩).2.reply = .busy .readers := by
    decide +kernel
  exact ⟨((hboth.begins 0 rfl).writer .drain hbusy).2, hbusy⟩

end Session

end ReaderWriter
