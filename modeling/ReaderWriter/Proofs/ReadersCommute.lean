import Mathlib.Logic.Function.Basic
import ReaderWriter.Proofs.Session.ReaderTurn
import ReaderWriter.Proofs.Session.Reordering

/-!
# Readers do not interfere

In a row of turns that are all on the side of the readers it does not matter who
comes before whom. What a reader's turn comes to depends on the flag, which stays as
it is, and on where the reader stands itself; and what the turns do to the counters
and the barrier is added up.

A change of places may lead through an order that no discipline allows, where
something is given back before it is had. So the places are changed among readers
whose turns are total, and a disciplined order is compared with these, turn by turn.
-/

namespace ReaderWriter

/-- The lock, and where every actor stands. -/
structure Readers where
  lock : Lock
  calls : Nat → Option Stopped

namespace Readers

/-- What a turn on the side of the readers comes to. -/
def turn (key : Nat) (r : Readers) (t : Turn) : ReaderTurn :=
  .of key r.lock.flag (r.calls t.actor) t.step

/-- The readers after a turn. -/
def next (key : Nat) (r : Readers) (t : Turn) : Readers :=
  ⟨Deed.run (r.turn key t).deeds r.lock, Function.update r.calls t.actor (r.turn key t).call?⟩

/-- The reply and the log of a turn. -/
def answer (key : Nat) (r : Readers) (t : Turn) : Reply × List Record :=
  ((r.turn key t).reply, Deed.log (r.turn key t).deeds)

/-- The turn is on the side of the readers where it is taken. -/
def ReaderSide (key : Nat) (r : Readers) (t : Turn) : Prop :=
  t.IsReaderSide key (r.calls t.actor)

variable {key : Nat} {r : Readers} {t u : Turn}

theorem calls_next_self : (r.next key t).calls t.actor = (r.turn key t).call? :=
  Function.update_self _ _ _

theorem calls_next_of_ne {actor : Nat} (others : t.actor ≠ actor) :
    (r.next key t).calls actor = r.calls actor :=
  Function.update_of_ne others.symm _ _

/-- A turn comes to the same after a turn of another actor. -/
theorem turn_next (others : t.actor ≠ u.actor) : (r.next key t).turn key u = r.turn key u := by
  rw [turn, calls_next_of_ne others, next, Deed.run_flag, turn]

/-- No turn moves another actor's turn to the side of the readers or away from it. -/
theorem readerSide_next (others : t.actor ≠ u.actor) :
    (r.next key t).ReaderSide key u ↔ r.ReaderSide key u := by
  rw [ReaderSide, calls_next_of_ne others, ReaderSide]

theorem commutes (key : Nat) : Script.Commutes (next key) (answer key) where
  next_next r t u others := by
    have hfirst : (r.next key t).turn key u = r.turn key u := turn_next others
    have hsecond : (r.next key u).turn key t = r.turn key t := turn_next others.symm
    have hcalls := Function.update_comm others (r.turn key t).call? (r.turn key u).call? r.calls
    rw [next, hfirst, next, next, hsecond, next]
    dsimp only
    rw [Deed.run_run, hcalls]
  answer_next r t u others := by
    rw [answer, turn_next others, answer]

end Readers

namespace Ledger

/-- The reply to a turn, and its log. -/
def answer (b : Ledger) (t : Turn) : Reply × List Record :=
  ((b.session.step t).2.reply, (b.session.step t).2.log)

/-- The turn is on the side of the readers where it is taken. -/
def ReaderSide (key : Nat) (b : Ledger) (t : Turn) : Prop :=
  t.IsReaderSide key (b.session.stopped.get? t.actor)

instance (key : Nat) (b : Ledger) (t : Turn) : Decidable (b.ReaderSide key t) :=
  inferInstanceAs (Decidable (t.IsReaderSide key _))

/-- The ledger has the lock and the calls of the readers. -/
structure Shows (key : Nat) (b : Ledger) (r : Readers) : Prop where
  lock : b.session.lock? key = some r.lock
  calls : ∀ actor, b.session.stopped.get? actor = r.calls actor

variable {s : Session} {key : Nat} {b : Ledger} {o : Object} {r : Readers} {t : Turn}
variable {before first second script : List Turn}

/-- A sound ledger shows readers with its lock and its calls. -/
theorem Sound.shows {P : Stopped → Prop} {l : Lock} (h : Sound key P b o l) :
    b.Shows key ⟨l, b.session.stopped.get?⟩ :=
  ⟨Session.lock?_eq h.object h.lock, fun _ => rfl⟩

namespace Shows

/-- Readers have the lock that the ledger is sound with. -/
theorem lock_eq {P : Stopped → Prop} {l : Lock} (h : b.Shows key r) (hl : Sound key P b o l) :
    r.lock = l :=
  Option.some.inj (h.lock.symm.trans (Session.lock?_eq hl.object hl.lock))

/-- A turn on the side of the readers does to the ledger what it does to the readers. -/
theorem next (h : b.Shows key r) (hsound : ∃ l, Sound key Stopped.InOperation b (o.withLock l) l)
    (hside : b.ReaderSide key t) (few : b.session.peak key Stopped.isStarved t < 2 ^ 31) :
    (b.next key t).Shows key (r.next key t) ∧ b.answer t = r.answer key t := by
  obtain ⟨l, hl⟩ := hsound
  have hplays : b.Plays key t (r.turn key t) := by
    rw [Readers.turn, ← h.calls, h.lock_eq hl]
    exact hl.plays hside few
  refine ⟨⟨?_, ?_⟩, ?_⟩
  · obtain ⟨m, hbefore, hafter⟩ := hplays.performs.words
    rw [h.lock] at hbefore
    cases hbefore
    exact hafter
  · intro actor
    by_cases ha : actor = t.actor
    · subst ha
      exact hplays.stands.trans Readers.calls_next_self.symm
    · have hkept : (b.next key t).session.stopped.get? actor = b.session.stopped.get? actor :=
        Session.take_stopped_of_ne ha
      rw [hkept, h.calls, Readers.calls_next_of_ne (Ne.symm ha)]
  · exact Prod.ext hplays.reply hplays.performs.log

/-- What is said of the side of the readers is said of both alike. -/
theorem readerSide_iff (h : b.Shows key r) : b.ReaderSide key t ↔ r.ReaderSide key t := by
  rw [ReaderSide, h.calls, Readers.ReaderSide]

/-- Admitted turns on the side of the readers lead the ledger where they lead the readers,
and are answered alike. -/
theorem run (h : b.Shows key r) (hsound : ∃ l, Sound key Stopped.InOperation b (o.withLock l) l)
    (admitted : EveryTurn key (Admits key) b script)
    (hside : Script.EveryTurn (Readers.next key) (Readers.ReaderSide key) r script) :
    (b.after key script).Shows key (Script.run (Readers.next key) r script) ∧
      ∀ actor, Script.told (Ledger.next key) answer actor b script =
        Script.told (Readers.next key) (Readers.answer key) actor r script := by
  induction script generalizing b r with
  | nil => exact ⟨h, fun actor => rfl⟩
  | cons t rest ih =>
      obtain ⟨hnow, hlater⟩ := admitted
      obtain ⟨hnext, hanswer⟩ := h.next hsound (h.readerSide_iff.mpr hside.1) hnow.2
      obtain ⟨hrun, htold⟩ := ih hnext (sound_next hsound hnow).1 hlater hside.2
      refine ⟨hrun, fun actor => ?_⟩
      rw [Script.told, Script.told, hanswer, htold]

/-- Turns that are on the side of the readers in the ledger are so among the readers. -/
theorem everyTurn (h : b.Shows key r)
    (hsound : ∃ l, Sound key Stopped.InOperation b (o.withLock l) l)
    (admitted : EveryTurn key (Admits key) b script)
    (hside : EveryTurn key (ReaderSide key) b script) :
    Script.EveryTurn (Readers.next key) (Readers.ReaderSide key) r script := by
  induction script generalizing b r with
  | nil => trivial
  | cons t rest ih =>
      obtain ⟨hnow, hlater⟩ := admitted
      obtain ⟨hnext, -⟩ := h.next hsound hside.1 hnow.2
      exact ⟨h.readerSide_iff.mp hside.1, ih hnext (sound_next hsound hnow).1 hlater hside.2⟩

/-- The lock of a sound ledger is that of the readers. -/
theorem object (h : b.Shows key r)
    (hsound : ∃ l, Sound key Stopped.InOperation b (o.withLock l) l) :
    b.session.objects.get? key = some (o.withLock r.lock) := by
  obtain ⟨l, hl⟩ := hsound
  rw [hl.object, h.lock_eq hl]

end Shows

/-- In a disciplined script on a fresh lock, take turns in a row that are all on the side
of the readers. In every disciplined order that keeps each actor's own turns in order,
every actor is told the same, and all of it ends with the same lock and the same calls. -/
theorem readers_commute (fresh : s.Fresh key o)
    (disciplined : Disciplined key ⟨s, .none⟩ (before ++ first))
    (disciplined' : Disciplined key ⟨s, .none⟩ (before ++ second))
    (fewStarved : FewStarved key ⟨s, .none⟩ (before ++ first))
    (fewStarved' : FewStarved key ⟨s, .none⟩ (before ++ second))
    (readers : EveryTurn key (ReaderSide key) (after key ⟨s, .none⟩ before) first)
    (reordered : Script.Interleaves first second) :
    let b := after key ⟨s, .none⟩ before
    (∀ actor, Script.told (next key) answer actor b first =
        Script.told (next key) answer actor b second) ∧
      (∃ l, (b.after key first).session.objects.get? key = some (o.withLock l) ∧
        (b.after key second).session.objects.get? key = some (o.withLock l)) ∧
      ∀ actor, (b.after key first).session.stopped.get? actor =
        (b.after key second).session.stopped.get? actor := by
  intro b
  obtain ⟨admittedBefore, admitted⟩ :=
    (Script.EveryTurn.append_iff (P := Admits key)).mp (disciplined.and fewStarved)
  obtain ⟨-, admitted'⟩ :=
    (Script.EveryTurn.append_iff (P := Admits key)).mp (disciplined'.and fewStarved')
  have hsound := (sound_of_admitted (sound_fresh fresh) admittedBefore).1.last
  obtain ⟨r, hshows⟩ : ∃ r, b.Shows key r := hsound.elim fun _ hl => ⟨_, hl.shows⟩
  have hreorders := reordered.reorders
  have hcommutes := Readers.commutes key
  have hside := hshows.everyTurn hsound admitted readers
  have hside' := hreorders.everyTurn hcommutes (fun _ _ _ => Readers.readerSide_next) hside
  obtain ⟨hrun, htold⟩ := hshows.run hsound admitted hside
  obtain ⟨hrun', htold'⟩ := hshows.run hsound admitted' hside'
  rw [← hreorders.run_eq hcommutes r] at hrun'
  refine ⟨fun actor => ?_, ⟨_, hrun.object ?_, hrun'.object ?_⟩, fun actor => ?_⟩
  · rw [htold, htold', hreorders.told_eq hcommutes]
  · exact (sound_of_admitted hsound admitted).1.last
  · exact (sound_of_admitted hsound admitted').1.last
  · rw [hrun.calls, hrun'.calls]

/-- A writer keeps two readers out until the one has raised the barrier and the other
stands in its first pause past its patience. -/
def siege : List Turn :=
  [⟨0, 0, .waiting (.acquire .write)⟩, ⟨1, 0, .waiting (.acquire .read)⟩, ⟨1, 0, .resume 501⟩,
    ⟨2, 0, .waiting (.acquire .read)⟩, ⟨2, 0, .resume 500⟩, ⟨0, 0, .instant (.unlock .write)⟩]

/-- Both get in, and a third reader comes and goes. -/
def admission : List Turn :=
  [⟨1, 0, .resume 1⟩, ⟨2, 0, .resume 3⟩, ⟨3, 0, .instant (.tryAcquire .read)⟩,
    ⟨1, 0, .instant (.unlock .read)⟩, ⟨3, 0, .instant (.unlock .read)⟩]

/-- The reader that has raised the barrier is let in last. -/
theorem readers_commute_admission :
    let later : List Turn := [⟨3, 0, .instant (.tryAcquire .read)⟩, ⟨2, 0, .resume 3⟩,
      ⟨3, 0, .instant (.unlock .read)⟩, ⟨1, 0, .resume 1⟩, ⟨1, 0, .instant (.unlock .read)⟩]
    let b := after 0 ⟨.start (.bare .fresh), .none⟩ siege
    Script.told (next 0) answer 2 b later =
        [(.ok, [.outOfPatience 500, .barrierLowered])] ∧
      ∃ l, (b.after 0 admission).session.objects.get? 0 = some (.bare l) ∧
        (b.after 0 later).session.objects.get? 0 = some (.bare l) := by
  intro later b
  have fresh : (Session.start (.bare .fresh)).Fresh 0 (.bare .fresh) := Session.start_fresh rfl
  have disciplined : Disciplined 0 ⟨.start (.bare .fresh), .none⟩ (siege ++ admission) := by
    decide +kernel
  have disciplined' : Disciplined 0 ⟨.start (.bare .fresh), .none⟩ (siege ++ later) := by
    decide +kernel
  obtain ⟨htold, ⟨l, hfirst, hsecond⟩, -⟩ := readers_commute fresh disciplined disciplined'
    (by decide +kernel) (by decide +kernel) (by decide +kernel) (by decide +kernel)
  simp only [b]
  rw [← htold 2]
  refine ⟨?_, l, hfirst, hsecond⟩
  decide +kernel

end Ledger

end ReaderWriter
