import ReaderWriter.Proofs.Lock.Deeds

/-!
# What a resumed call comes to

Nobody else moves while a call is let go on. So a writer that has to wait once
more waits to the end of its turn, a reader that finds the flag down is in at
once, and a reader that finds it taken spins through all of its pauses. In each
case the strides of the turn come to a stride that is given here exactly, with
its log.
-/

namespace ReaderWriter

namespace Object

@[simp] theorem withLock_withLock (o : Object) (l m : Lock) :
    (o.withLock l).withLock m = o.withLock m := by
  cases o with
  | bare _ => rfl
  | vector _ _ => rfl
  | payload p =>
      obtain ⟨scheme, store⟩ := p
      cases scheme <;> rfl

theorem withLock_self {o : Object} {l : Lock} (h : o.lock? = some l) : o.withLock l = o := by
  cases o with
  | bare _ => rw [Option.some.inj h, withLock]
  | vector _ _ => rw [Option.some.inj h, withLock]
  | payload p =>
      obtain ⟨scheme, store⟩ := p
      cases scheme with
      | writerFirst _ => rw [Option.some.inj h]; rfl
      | _ => rfl

theorem lock?_withLock_of {o : Object} {l : Lock} (h : o.lock? = some l) (m : Lock) :
    (o.withLock m).lock? = some m := by
  rw [lock?_withLock, h]
  rfl

end Object

namespace Call

variable {o : Object} {l : Lock} {guard? : Option String}

/-- A call that is resumed goes on for a turn at least. -/
theorem exists_turns (turns : Nat) : ∃ n, max turns 1 = n + 1 :=
  ⟨max turns 1 - 1, by omega⟩

/-- The next stride of a call on the lock of an object. -/
theorem resume?_onLock (hl : o.lock? = some l) (call : LockCall) :
    (Call.onLock call).resume? o = some (strideOnLock o (call.resume l)) := by
  rw [resume?, hl]
  rfl

/-- The first stride of a reader's call, as deeds. -/
theorem acquire_read_of_flag (hf : l.flag = true) :
    strideOnLock o (LockCall.acquire guard? .read l) =
      ⟨o.withLock (Deed.run (Deed.whileOut 1) l), Deed.log (Deed.whileOut 1),
        .paused (.onLock (.read guard? (.standing 1)))⟩ := by
  rw [LockCall.acquire, Lock.read_of_flag hf]
  rfl

theorem acquire_read_of_not_flag (hf : l.flag = false) :
    strideOnLock o (LockCall.acquire guard? .read l) =
      ⟨o.withLock (Deed.run (Deed.whenIn 0) l), Deed.log (Deed.whenIn 0),
        .finished (.ofHold guard? .read)⟩ := by
  rw [LockCall.acquire, Lock.read_of_not_flag hf]
  rfl

/-- A call that is where it will stay comes to nothing more. -/
theorem goOn_settled {s : Stride Object Call Ending}
    (h : ∀ call, s.progress = .paused call → call.resume? s.state = some (.pauseAt s.state call))
    (turns : Nat) : goOn turns s = some s := by
  induction turns with
  | zero => rfl
  | succ turns ih =>
      obtain ⟨o, log, progress⟩ := s
      cases progress with
      | paused call =>
          have hstay : call.resume? o = some (.pauseAt o call) := h call rfl
          simpa only [goOn, hstay, Stride.pauseAt, List.append_nil] using ih
      | finished ending => rfl
      | violated breach => rfl

/-- From a pause a call comes to what its next stride comes to. -/
theorem goOn_succ {call : Call} {s : Stride Object Call Ending} (hs : call.resume? o = some s)
    (turns : Nat) : goOn (turns + 1) (.pauseAt o call) = goOn turns s := by
  simp only [goOn, Stride.pauseAt, hs, List.nil_append]

/-- A writer comes to the end of its first stride. -/
theorem goOn_write {place : WriteWait} (turns : Nat) (hl : o.lock? = some l) :
    goOn (turns + 1) (.pauseAt o (.onLock (.write guard? place))) =
      some (strideOnLock o (LockCall.resume l (.write guard? place))) := by
  rw [goOn_succ (resume?_onLock hl _)]
  apply goOn_settled
  intro call hp
  have hm : (strideOnLock o (LockCall.resume l (.write guard? place))).Meets
      (fun o' call => call.resume? o' = some (.pauseAt o' call)) fun _ _ => True := by
    rw [meets_strideOnLock, LockCall.resume, Stride.Meets.relabel_iff]
    apply (place.resume_settles l).mono
    · intro m place' hstay
      have hsame : strideOnLock (o.withLock m) (.pauseAt m (.write guard? place')) =
          .pauseAt ((o.withLock m).withLock m) (.onLock (.write guard? place')) := rfl
      rw [Object.withLock_withLock] at hsame
      rw [resume?_onLock (Object.lock?_withLock_of hl m), LockCall.resume, hstay]
      exact congrArg some hsame
    · exact fun _ _ => id
  exact hm.of_paused hp

/-- A reader that finds the flag down does not pause again. -/
theorem resume_read_of_not_flag {place : ReadWait} (hf : l.flag = false) (call : Call) :
    (strideOnLock o (LockCall.resume l (.read guard? place))).progress ≠ .paused call := by
  intro hp
  have hout := ReadWait.resume_of_not_flag place hf
  rw [strideOnLock, LockCall.resume] at hp
  generalize place.resume l = s at hp hout
  obtain ⟨m, log, progress⟩ := s
  cases progress with
  | paused place' => exact hout place' rfl
  | finished result => cases hp
  | violated breach => cases hp

/-- A reader that finds the flag down comes to the end of its first stride. -/
theorem goOn_read_of_not_flag {place : ReadWait} (turns : Nat) (hl : o.lock? = some l)
    (hf : l.flag = false) :
    goOn (turns + 1) (.pauseAt o (.onLock (.read guard? place))) =
      some (strideOnLock o (LockCall.resume l (.read guard? place))) := by
  rw [goOn_succ (resume?_onLock hl _)]
  apply goOn_settled
  intro call hp
  exact absurd hp (resume_read_of_not_flag hf call)

/-- A reader that finds the flag taken stays in its spin. It has raised the
barrier once it has returned from the first pause past its patience. -/
theorem goOn_read_of_flag {p : Nat} (guard? : Option String) (turns : Nat)
    (hl : o.lock? = some l) (hf : l.flag = true) (hp : 0 < p) :
    goOn turns (.pauseAt o (.onLock (.read guard? (.standing p)))) =
      some ⟨o.withLock (Deed.run (Deed.between p (p + turns)) l),
        Deed.log (Deed.between p (p + turns)),
        .paused (.onLock (.read guard? (.standing (p + turns))))⟩ := by
  -- The deeds are summed up from the start, since a stride's log goes behind the earlier ones.
  have spin : ∀ q, p ≤ q →
      goOn turns ⟨o.withLock (Deed.run (Deed.between p q) l), Deed.log (Deed.between p q),
          .paused (.onLock (.read guard? (.standing q)))⟩ =
        some ⟨o.withLock (Deed.run (Deed.between p (q + turns)) l),
          Deed.log (Deed.between p (q + turns)),
          .paused (.onLock (.read guard? (.standing (q + turns))))⟩ := by
    induction turns with
    | zero => exact fun q _ => rfl
    | succ turns ih =>
        intro q hq
        have hpos : 0 < q := by omega
        have hdeeds := Deed.between_append_between hq (Nat.le_succ q)
        have hflag : (Deed.run (Deed.between p q) l).flag = true := by
          rw [Deed.run_flag, hf]
        have hstride : strideOnLock (o.withLock (Deed.run (Deed.between p q) l))
            (LockCall.resume (Deed.run (Deed.between p q) l) (.read guard? (.standing q))) =
            ⟨o.withLock (Deed.run (Deed.between p (q + 1)) l), Deed.log (Deed.between q (q + 1)),
              .paused (.onLock (.read guard? (.standing (q + 1))))⟩ := by
          rw [LockCall.resume, ReadWait.resume_of_flag hpos hflag, ← Deed.run_append, hdeeds]
          simp [strideOnLock, Stride.relabel, Stride.andThen, Stride.within]
        have hnext := ih (q + 1) (by omega)
        rw [Nat.add_assoc, Nat.add_comm 1] at hnext
        rw [goOn]
        dsimp only
        rw [resume?_onLock (Object.lock?_withLock_of hl _), hstride]
        dsimp only
        rw [← Deed.log_append, hdeeds]
        exact hnext
  have hstart := spin p (Nat.le_refl p)
  rw [Deed.between_self] at hstart
  change goOn turns ⟨o.withLock l, [], _⟩ = _ at hstart
  rw [Object.withLock_self hl] at hstart
  exact hstart

end Call

end ReaderWriter
