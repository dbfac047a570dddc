import ReaderWriter.Proofs.Lock.Operation

/-!
# The words after an attempt

An attempt touches several words on its way and takes some of that back. What it
comes to is given here as an equation on the four words: which of them have moved
and what is answered, for every state of the lock. The first obstacle in the order
of barrier, flag and readers decides.

A refused attempt may have moved both counters of the readers, but never their
difference. So nobody can tell the lock from what it was before.
-/

namespace ReaderWriter

namespace Lock

variable {l m : Lock} {why : Busy}

theorem tryRead_eq (l : Lock) : l.tryRead =
    if l.flag then ({ l with ingress := l.ingress + 1, egress := l.egress + 1 }, .error .written)
    else ({ l with ingress := l.ingress + 1 }, .ok ()) := rfl

theorem tryWrite_eq (l : Lock) : l.tryWrite =
    if 0 < l.barrier then (l, .error .barred)
    else if l.flag then (l, .error .written)
    else if l.ingress = l.egress then ({ l with flag := true }, .ok ())
    else (l, .error .readers) := by
  simp only [tryWrite, claim, isBarred_iff, isEmpty_iff]
  cases l.flag with
  | true => rfl
  | false => simp only [eq_comm, Bool.not_false, Bool.false_eq_true, if_false]

theorem tryUpgrade_eq (l : Lock) : l.tryUpgrade =
    if 0 < l.barrier then (l, .error .barred)
    else if l.flag then (l, .error .written)
    else if l.ingress = l.egress + 1 then
      ({ l with egress := l.egress + 1, flag := true }, .ok ())
    else ({ l with ingress := l.ingress + 1, egress := l.egress + 1 }, .error .readers) := by
  simp only [tryUpgrade, claim, isBarred_iff, isEmpty_iff, depart, arrive]
  cases l.flag with
  | true => rfl
  | false => simp only [eq_comm, Bool.not_false, Bool.false_eq_true, if_false]

theorem downgrade_eq (l : Lock) : l.downgrade =
    if l.flag then ({ l with ingress := l.ingress + 1, flag := false }, .ok ())
    else ({ l with ingress := l.ingress + 1 }, .error .notWriteLocked) := rfl

/-! ## Attempts that fail -/

/-- Nobody can tell the locks apart by what they are told. -/
structure Alike (l m : Lock) : Prop where
  registered : m.registered = l.registered
  barrier : m.barrier = l.barrier
  flag : m.flag = l.flag

theorem Alike.refl (l : Lock) : l.Alike l := ⟨rfl, rfl, rfl⟩

theorem alike_arrive_depart (l : Lock) : l.Alike l.arrive.depart :=
  ⟨l.registered_arrive_depart, rfl, rfl⟩

theorem tryRead_alike (h : l.tryRead = (m, .error why)) : l.Alike m := by
  rw [tryRead_eq] at h
  split at h
  · cases h
    exact l.alike_arrive_depart
  · cases h

theorem tryWrite_alike (h : l.tryWrite = (m, .error why)) : l.Alike m := by
  rw [tryWrite_eq] at h
  split at h
  · cases h
    exact .refl l
  · split at h
    · cases h
      exact .refl l
    · split at h
      · cases h
      · cases h
        exact .refl l

theorem tryUpgrade_alike (h : l.tryUpgrade = (m, .error why)) : l.Alike m := by
  rw [tryUpgrade_eq] at h
  split at h
  · cases h
    exact .refl l
  · split at h
    · cases h
      exact .refl l
    · split at h
      · cases h
      · cases h
        exact l.alike_arrive_depart

end Lock

/-- Only an operation of the lock can be refused, and a refusal does nothing. -/
theorem Instant.run_busy {what : Instant} {l : Lock} {why : Busy}
    (h : (what.run l).2 = .busy why) :
    (∃ op, Operation.ofInstant? what = some op) ∧ l.Alike (what.run l).1 := by
  have refused : ∀ {outcome : Lock × Except Busy Unit},
      Reply.ofAttempt outcome.2 = .busy why → outcome = (outcome.1, .error why) :=
    fun h => Prod.ext rfl (Reply.ofAttempt_eq_busy_iff.mp h)
  cases what with
  | tryAcquire mode =>
      refine ⟨⟨_, rfl⟩, ?_⟩
      cases mode with
      | read => exact Lock.tryRead_alike (refused h)
      | write => exact Lock.tryWrite_alike (refused h)
  | tryUpgrade => exact ⟨⟨_, rfl⟩, Lock.tryUpgrade_alike (refused h)⟩
  | unlock mode => exact absurd h (Reply.ofCheck_ne_busy _ why)
  | downgrade => exact absurd h (Reply.ofCheck_ne_busy _ why)
  | lower => exact absurd h (Reply.ofCheck_ne_busy _ why)
  | release => exact absurd h (Reply.ofCheck_ne_busy _ why)
  | _ => cases h

end ReaderWriter
