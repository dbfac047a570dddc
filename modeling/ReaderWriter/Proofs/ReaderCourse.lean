import Mathlib.Data.List.Induction
import ReaderWriter.Proofs.Session.ReaderTurn

/-!
# The course of a reader's call

A reader's call has one course, whatever the other actors do meanwhile and
however its resumes are batched. It arrives and departs once, raises the barrier
when it returns from the first pause past its patience, and if it did so lowers
it when it gets in. So it emits both records or neither, and while it is stopped
it is registered no more than before it began.

The course is followed turn by turn. In a turn of its own the call does what
leads from one of its pauses to a later one or lets it in; in a turn of anybody
else it does nothing.
-/

namespace ReaderWriter

namespace Session

/-- The pauses that the call of an actor has entered; 0 if the actor is not stopped. -/
def pauses (s : Session) (actor : Nat) : Nat :=
  match s.stopped.get? actor with
  | some c => c.pauses
  | none => 0

end Session

namespace Ledger

/-- In its turns of a script the actor performs the deeds. -/
inductive Carries (key actor : Nat) : Ledger → List Turn → List Deed → Prop
  | nil (b : Ledger) : Carries key actor b [] []
  /-- A turn of the actor's own. -/
  | own {b : Ledger} {t : Turn} {rest : List Turn} {now later : List Deed}
      (mine : t.actor = actor) (performs : b.Performs key t now)
      (tail : Carries key actor (b.next key t) rest later) :
      Carries key actor b (t :: rest) (now ++ later)
  /-- A turn of another actor. -/
  | other {b : Ledger} {t : Turn} {rest : List Turn} {deeds : List Deed}
      (others : t.actor ≠ actor) (tail : Carries key actor (b.next key t) rest deeds) :
      Carries key actor b (t :: rest) deeds

/-- What the call of a reader has to have done in the course of a script that
begins with it: what one does that stands in its present pause or, if the call
has returned in the last turn, one that gets in from its last pause. -/
def courseOf (key actor : Nat) (b : Ledger) (script : List Turn) : List Deed :=
  match (b.after key script).session.stopped.get? actor with
  | some c => Deed.whileOut c.pauses
  | none => Deed.whenIn ((b.after key script.dropLast).session.pauses actor)

variable {key actor p : Nat} {b : Ledger} {o : Object} {l : Lock} {t : Turn}
variable {first rest : List Turn} {now later : List Deed}

theorem Carries.append (h : Carries key actor b first now)
    (h' : Carries key actor (b.after key first) rest later) :
    Carries key actor b (first ++ rest) (now ++ later) := by
  induction h with
  | nil b => exact h'
  | own mine performs _ ih =>
      rw [List.append_assoc]
      exact .own mine performs (ih h')
  | other others _ ih => exact .other others (ih h')

/-! ## One turn -/

/-- The actor stands in pause `p` of a reader's call. -/
def Spins (key actor p : Nat) (b : Ledger) : Prop :=
  0 < p ∧ b.session.stopped.get? actor = some ⟨key, p, .onLock (.read none (.standing p))⟩

/-- A reader's call begins: it gets in at once, or it enters its first pause. -/
theorem Sound.reader_begins (h : Sound key Stopped.InOperation b o l)
    (hfree : b.session.stopped.get? actor = none) :
    let t : Turn := ⟨actor, key, .waiting (.acquire .read)⟩
    (b.Performs key t (Deed.whileOut 1) ∧ (b.next key t).Spins key actor 1) ∨
      (b.Performs key t (Deed.whenIn 0) ∧ (b.next key t).session.stopped.get? actor = none) := by
  intro t
  have hplays := h.plays_acquire hfree
  cases hf : l.flag with
  | true =>
      rw [hf] at hplays
      exact .inl ⟨hplays.performs, Nat.one_pos, hplays.stands⟩
  | false =>
      rw [hf] at hplays
      exact .inr ⟨hplays.performs, hplays.stands⟩

/-- In a turn of its own, a reader's call that is stopped goes on to a later pause,
or it gets in. -/
theorem Sound.reader_goes_on (h : Sound key Stopped.InOperation b o l)
    (hspins : b.Spins key actor p) (mine : t.actor = actor)
    (few : b.session.peak key Stopped.isStarved t < 2 ^ 31) :
    (∃ q, p ≤ q ∧ b.Performs key t (Deed.between p q) ∧ (b.next key t).Spins key actor q) ∨
      (b.Performs key t (Deed.entering p) ∧
        (b.next key t).session.stopped.get? actor = none) := by
  obtain ⟨hp, hget⟩ := hspins
  obtain ⟨a, number, step⟩ := t
  obtain rfl : a = actor := mine
  obtain ⟨turns, rfl⟩ | hr := step.resume_or_not
  · have hplays := h.plays_resume hp hget few
    cases hf : l.flag with
    | true =>
        rw [hf] at hplays
        exact .inl ⟨p + max turns 1, by omega, hplays.performs, by omega, hplays.stands⟩
    | false =>
        rw [hf] at hplays
        exact .inr ⟨hplays.performs, hplays.stands⟩
  · have hplays : b.Plays key ⟨a, number, step⟩ _ :=
      .of_stays h.object h.lock (Session.take_of_stopped hget hr)
    refine .inl ⟨p, Nat.le_refl p, ?_, hp, hplays.stands.trans hget⟩
    rw [Deed.between_self]
    exact hplays.performs

/-! ## The whole call -/

theorem courseOf_of_spins {script : List Turn} (h : (b.after key script).Spins key actor p) :
    courseOf key actor b script = Deed.whileOut p := by
  rw [courseOf, h.2]

theorem courseOf_of_free {t : Turn}
    (h : (b.after key (first ++ [t])).session.stopped.get? actor = none) :
    courseOf key actor b (first ++ [t]) =
      Deed.whenIn ((b.after key first).session.pauses actor) := by
  rw [courseOf, h, List.dropLast_concat]

/-- One more turn takes the call of an actor that is stopped further on its course. -/
theorem Sound.course_next {script : List Turn} {t : Turn}
    (h : Sound key Stopped.InOperation (b.after key script) o l)
    (hspins : (b.after key script).Spins key actor p)
    (hcarries : Carries key actor b script (courseOf key actor b script))
    (few : (b.after key script).session.peak key Stopped.isStarved t < 2 ^ 31) :
    Carries key actor b (script ++ [t]) (courseOf key actor b (script ++ [t])) ∧
      ((∃ q, (b.after key (script ++ [t])).Spins key actor q) ∨
        (b.after key (script ++ [t])).session.stopped.get? actor = none) := by
  have hlast : b.after key (script ++ [t]) = (b.after key script).next key t :=
    Script.run_append
  rw [courseOf_of_spins hspins] at hcarries
  by_cases mine : t.actor = actor
  · obtain ⟨q, hq, hnow, hnext⟩ | ⟨hnow, hnext⟩ := h.reader_goes_on hspins mine few
    · rw [← hlast] at hnext
      refine ⟨?_, .inl ⟨q, hnext⟩⟩
      rw [courseOf_of_spins hnext, ← Deed.whileOut_append_between hq,
        ← List.append_nil (Deed.between p q)]
      exact hcarries.append (.own mine hnow (.nil _))
    · rw [← hlast] at hnext
      refine ⟨?_, .inr hnext⟩
      have hpauses : (b.after key script).session.pauses actor = p := by
        rw [Session.pauses, hspins.2]
      rw [courseOf_of_free hnext, hpauses, ← Deed.whileOut_append_entering hspins.1,
        ← List.append_nil (Deed.entering p)]
      exact hcarries.append (.own mine hnow (.nil _))
  · have hnext : (b.after key (script ++ [t])).Spins key actor p := by
      rw [hlast]
      exact ⟨hspins.1, (Session.take_stopped_of_ne (Ne.symm mine)).trans hspins.2⟩
    refine ⟨?_, .inl ⟨p, hnext⟩⟩
    rw [courseOf_of_spins hnext, ← List.append_nil (Deed.whileOut p)]
    exact hcarries.append (.other mine (.nil _))

/-- What a reader's call has done by the end of a script that begins with it: the deeds of
its course, in its own turns, and what these come to. -/
structure OnCourse (key actor : Nat) (b : Ledger) (script : List Turn) : Prop where
  carries : Carries key actor b script (courseOf key actor b script)
  /-- A call that is stopped has arrived and departed, and it has raised the barrier by one
  if it has returned from its pause 501. -/
  out : ∀ c, (b.after key script).session.stopped.get? actor = some c →
    Deed.ComeTo (courseOf key actor b script) 1 1 (if 501 < c.pauses then 1 else 0)
      (if 501 < c.pauses then [.outOfPatience 500] else [])
  /-- A call that has returned has arrived once more than it has departed, and it has lowered
  the barrier if it had raised it. -/
  back : (b.after key script).session.stopped.get? actor = none →
    let p := (b.after key script.dropLast).session.pauses actor
    Deed.ComeTo (courseOf key actor b script) (if p = 0 then 1 else 2) (if p = 0 then 0 else 1) 0
      (if 501 ≤ p then [.outOfPatience 500, .barrierLowered] else [])
  /-- It counts as a reader once it has returned, and not before. -/
  registered : ∀ l, (Deed.run (courseOf key actor b script) l).registered =
    if ((b.after key script).session.stopped.get? actor).isSome then l.registered
    else l.registered + 1

/-- A call that does what its course says has the effects that its course has. -/
theorem onCourse_of_carries {script : List Turn}
    (h : Carries key actor b script (courseOf key actor b script)) :
    OnCourse key actor b script := by
  have hout : ∀ c, (b.after key script).session.stopped.get? actor = some c →
      courseOf key actor b script = Deed.whileOut c.pauses := fun c hc => by
    rw [courseOf, hc]
  have hback : (b.after key script).session.stopped.get? actor = none →
      courseOf key actor b script =
        Deed.whenIn ((b.after key script.dropLast).session.pauses actor) := fun hnone => by
    rw [courseOf, hnone]
  refine ⟨h, fun c hc => ?_, fun hnone => ?_, fun l => ?_⟩
  · rw [hout c hc]
    exact Deed.whileOut_comesTo c.pauses
  · rw [hback hnone]
    exact Deed.whenIn_comesTo _
  · cases hstopped : (b.after key script).session.stopped.get? actor with
    | some c =>
        rw [hout c hstopped, (Deed.whileOut_comesTo c.pauses).registered, UInt32.sub_self,
          UInt32.add_zero]
        rfl
    | none =>
        rw [hback hstopped, (Deed.whenIn_comesTo _).registered]
        split <;> rfl

/-- The turn that begins a reader's call. -/
def reading (key actor : Nat) : Turn :=
  ⟨actor, key, .waiting (.acquire .read)⟩

/-- The first turn takes the call of a reader into its first pause or in. -/
theorem Sound.course_begins (h : Sound key Stopped.InOperation b o l)
    (hfree : b.session.stopped.get? actor = none) :
    Carries key actor b [reading key actor] (courseOf key actor b [reading key actor]) ∧
      ((∃ q, (b.after key [reading key actor]).Spins key actor q) ∨
        (b.after key [reading key actor]).session.stopped.get? actor = none) := by
  obtain ⟨hnow, hnext⟩ | ⟨hnow, hnext⟩ := h.reader_begins hfree
  · refine ⟨?_, .inl ⟨1, hnext⟩⟩
    rw [courseOf_of_spins hnext, ← List.append_nil (Deed.whileOut 1)]
    exact .own rfl hnow (.nil _)
  · refine ⟨?_, .inr hnext⟩
    have hpauses : b.session.pauses actor = 0 := by
      rw [Session.pauses, hfree]
    have hcourse : courseOf key actor b ([] ++ [reading key actor]) =
        Deed.whenIn (b.session.pauses actor) := courseOf_of_free hnext
    rw [List.nil_append, hpauses] at hcourse
    rw [hcourse, ← List.append_nil (Deed.whenIn 0)]
    exact .own rfl hnow (.nil _)

/-- As long as its actor is stopped before every turn, a reader's call is on its
course, and at the end of it it stands in a pause or has returned. -/
theorem carries_course {course : List Turn}
    (hsound : ∃ l, Sound key Stopped.InOperation b (o.withLock l) l)
    (hfree : b.session.stopped.get? actor = none)
    (admitted : EveryTurn key (Admits key) b (reading key actor :: course))
    (stopped : EveryTurn key (fun b _ => b.session.Stands key actor fun _ => true)
      (b.next key (reading key actor)) course) :
    Carries key actor b (reading key actor :: course)
        (courseOf key actor b (reading key actor :: course)) ∧
      ((∃ p, (b.after key (reading key actor :: course)).Spins key actor p) ∨
        (b.after key (reading key actor :: course)).session.stopped.get? actor = none) := by
  -- The induction is on the end of the course, since only its last turn may let the call return.
  induction course using List.reverseRecOn with
  | nil =>
      obtain ⟨l, hs⟩ := hsound
      exact hs.course_begins hfree
  | append_singleton init t ih =>
      have hsplit : reading key actor :: (init ++ [t]) = (reading key actor :: init) ++ [t] := rfl
      rw [hsplit] at admitted ⊢
      obtain ⟨admittedInit, ⟨hpermits, hroom⟩, -⟩ := Script.EveryTurn.append_iff.mp admitted
      obtain ⟨stoppedInit, hstands, -⟩ := Script.EveryTurn.append_iff.mp stopped
      obtain ⟨hcarries, ⟨p, hspins⟩ | hreturned⟩ := ih admittedInit stoppedInit
      · obtain ⟨l, hs⟩ := (sound_of_admitted hsound admittedInit).1.last
        exact hs.course_next hspins hcarries hroom
      · exact absurd hstands (Session.not_stands_of_free hreturned)

/-- From the turn that begins it to the turn in which it returns, a reader's call
on a lock that is used with discipline does to the words and the log what its
course says, and nothing else. So it raises the barrier when it returns from its
pause 501 and at no other time, takes that back when it gets in, and counts as a
reader once it has returned and not before. -/
theorem reader_course {s : Session} {before course : List Turn} (actor : Nat)
    (fresh : s.Fresh key o)
    (disciplined : Disciplined key ⟨s, .none⟩ (before ++ reading key actor :: course))
    (fewStarved : FewStarved key ⟨s, .none⟩ (before ++ reading key actor :: course))
    (free : (after key ⟨s, .none⟩ before).session.stopped.get? actor = none)
    (stopped : EveryTurn key (fun b _ => b.session.Stands key actor fun _ => true)
      ((after key ⟨s, .none⟩ before).next key (reading key actor)) course) :
    OnCourse key actor (after key ⟨s, .none⟩ before) (reading key actor :: course) := by
  have admitted : EveryTurn key (Admits key) ⟨s, .none⟩ (before ++ reading key actor :: course) :=
    disciplined.and fewStarved
  obtain ⟨admittedBefore, admittedCall⟩ := Script.EveryTurn.append_iff.mp admitted
  have hsound := (sound_of_admitted (sound_fresh fresh) admittedBefore).1.last
  exact onCourse_of_carries (carries_course hsound free admittedCall stopped).1

/-- A writer holds the lock until a reader stands in its first pause past its
patience. -/
def lastPause : List Turn :=
  [⟨1, 0, .resume 200⟩, ⟨2, 0, .waiting (.acquire .read)⟩, ⟨1, 0, .resume 300⟩,
    ⟨0, 0, .instant (.unlock .write)⟩, ⟨1, 0, .resume 7⟩]

/-- The reader raises the barrier although the flag is down when it returns, and lowers it
again as it gets in. -/
theorem reader_course_lastPause :
    let b := after 0 ⟨.start (.bare .fresh), .none⟩ [⟨0, 0, .waiting (.acquire .write)⟩]
    Carries 0 1 b (reading 0 1 :: lastPause) [.arrive, .depart, .raise, .arrive, .lower] ∧
      Deed.ComeTo [.arrive, .depart, .raise, .arrive, .lower] 2 1 0
        [.outOfPatience 500, .barrierLowered] := by
  intro b
  have fresh : (Session.start (.bare .fresh)).Fresh 0 (.bare .fresh) := Session.start_fresh rfl
  have hcourse : courseOf 0 1 b (reading 0 1 :: lastPause) =
      [.arrive, .depart, .raise, .arrive, .lower] := by
    decide +kernel
  have hreturned : (b.after 0 (reading 0 1 :: lastPause)).session.stopped.get? 1 = none := by
    decide +kernel
  have hpauses : (b.after 0 (reading 0 1 :: lastPause).dropLast).session.pauses 1 = 501 := by
    decide +kernel
  have onCourse : OnCourse 0 1 b (reading 0 1 :: lastPause) :=
    reader_course 1 fresh (by decide +kernel) (by decide +kernel) (by decide +kernel)
      (by decide +kernel)
  have hcarries := onCourse.carries
  have hback := onCourse.back hreturned
  rw [hcourse] at hcarries hback
  rw [hpauses] at hback
  exact ⟨hcarries, hback⟩

end Ledger

end ReaderWriter
