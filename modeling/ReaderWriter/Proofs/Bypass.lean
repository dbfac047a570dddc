import ReaderWriter.Proofs.Session.Overtaking

/-!
# Bounded bypass of a starved reader

A reader that has raised the barrier can still be overtaken, but only by the
writers that stood in line for the flag at that moment, and by each of them at
most once. The line is the bound: no writer joins it while the barrier is up,
and one that takes the flag leaves it.

Other readers may raise and lower the barrier in the meantime. That does not
matter, because the one reader that is looked at keeps it up until it gets in.
-/

namespace ReaderWriter.Ledger

/-- The actors of the turns that take the flag, in order. -/
def takers (key : Nat) : Ledger → List Turn → List Nat
  | _, [] => []
  | b, t :: rest =>
    if b.Takes key t then t.actor :: takers key (b.next key t) rest
    else takers key (b.next key t) rest

variable {key actor : Nat} {b : Ledger} {script : List Turn}

/-! ## The line in the course of a script -/

section line

/-- Whoever is in line after a script has been there all along. -/
theorem line_throughout (h : EveryTurn key (HoldsBack key) b script)
    (hline : (b.after key script).session.Stands key actor Stopped.isInLine) :
    Throughout key (fun b => b.session.Stands key actor Stopped.isInLine) b script := by
  induction script generalizing b with
  | nil => exact hline
  | cons t rest ih =>
      have hrest := ih h.2 hline
      exact ⟨h.1.line actor hrest.start, hrest⟩

/-- A writer that waits for the barrier waits for it to the end of the script. -/
theorem held_throughout (h : EveryTurn key (HoldsBack key) b script)
    (hheld : b.session.Stands key actor Stopped.isHeldBack) :
    Throughout key (fun b => b.session.Stands key actor Stopped.isHeldBack) b script := by
  induction script generalizing b with
  | nil => exact hheld
  | cons t rest ih => exact ⟨hheld, ih h.2 (h.1.held actor hheld)⟩

theorem stands_of_mem_takers (h : EveryTurn key (HoldsBack key) b script)
    (hmem : actor ∈ takers key b script) : b.session.Stands key actor Stopped.isInLine := by
  induction script generalizing b with
  | nil => cases hmem
  | cons t rest ih =>
      rw [takers] at hmem
      split at hmem
      · next htakes =>
          obtain rfl | hrest := List.mem_cons.mp hmem
          · exact (h.1.taker htakes).2.1
          · exact h.1.line actor (ih h.2 hrest)
      · exact h.1.line actor (ih h.2 hmem)

/-- Nobody takes the flag twice, since nobody comes back into the line. -/
theorem nodup_takers (h : EveryTurn key (HoldsBack key) b script) :
    (takers key b script).Nodup := by
  induction script generalizing b with
  | nil => exact List.nodup_nil
  | cons t rest ih =>
      rw [takers]
      split
      · next htakes =>
          apply List.nodup_cons.mpr
          constructor
          · intro hmem
            exact (h.1.taker htakes).2.2 (stands_of_mem_takers h.2 hmem)
          · exact ih h.2
      · exact ih h.2

theorem length_takers_le (h : EveryTurn key (HoldsBack key) b script) :
    (takers key b script).length ≤ b.session.tally key Stopped.isInLine := by
  apply Registry.length_le_count (nodup_takers h)
  intro a ha
  obtain ⟨c, hget, hc, hline⟩ := stands_of_mem_takers h ha
  refine ⟨c, hget, ?_⟩
  rw [hc, hline, beq_self_eq_true]
  rfl

end line

/-- While a script runs, the flag is taken only by the writers that are in line
at its beginning, by each at most once, and all other writers are held back. -/
structure BypassBounded (key : Nat) (b : Ledger) (script : List Turn) : Prop where
  turns : EveryTurn key (HoldsBack key) b script
  takers_inLine : ∀ actor ∈ takers key b script, b.session.Stands key actor Stopped.isInLine
  once : (takers key b script).Nodup
  bound : (takers key b script).length ≤ b.session.tally key Stopped.isInLine
  /-- A writer that is in line has been there since the beginning. -/
  line : ∀ first rest, script = first ++ rest → ∀ actor,
    (b.after key first).session.Stands key actor Stopped.isInLine →
      Throughout key (fun b => b.session.Stands key actor Stopped.isInLine) b first
  /-- A writer that is held back stays so until the end. -/
  held : ∀ first rest, script = first ++ rest → ∀ actor,
    (b.after key first).session.Stands key actor Stopped.isHeldBack →
      Throughout key (fun b => b.session.Stands key actor Stopped.isHeldBack)
        (b.after key first) rest

theorem BypassBounded.of_turns (h : EveryTurn key (HoldsBack key) b script) :
    BypassBounded key b script where
  turns := h
  takers_inLine _ hmem := stands_of_mem_takers h hmem
  once := nodup_takers h
  bound := length_takers_le h
  line := by
    rintro first rest rfl actor hline
    exact line_throughout (Script.EveryTurn.append_iff.mp h).1 hline
  held := by
    rintro first rest rfl actor hheld
    exact held_throughout (Script.EveryTurn.append_iff.mp h).2 hheld

/-- A starved reader keeps the barrier up. -/
theorem Sound.isBarred_of_starved {o : Object} {l : Lock}
    (h : Sound key Stopped.InOperation b o l)
    (hr : b.session.Stands key actor Stopped.isStarved) : l.isBarred = true := by
  obtain ⟨c, hget, hc, hstarved⟩ := hr
  rw [h.balanced.isBarred_iff, h.raised_eq_starved, Session.starved,
    Session.tally_of_stopped hget hc, hstarved]
  exact Nat.succ_pos _

/-- From any moment at which a reader has raised the barrier to the moment its
call returns, it is overtaken only by the writers that were in line then, and
at most once by each. -/
theorem starved_bypass {s : Session} {o : Object} {before interval : List Turn} (reader : Nat)
    (fresh : s.Fresh key o)
    (disciplined : Disciplined key ⟨s, .none⟩ (before ++ interval))
    (fewStarved : FewStarved key ⟨s, .none⟩ (before ++ interval))
    (starved : EveryTurn key (fun b _ => b.session.Stands key reader Stopped.isStarved)
      (after key ⟨s, .none⟩ before) interval) :
    BypassBounded key (after key ⟨s, .none⟩ before) interval := by
  have admitted : EveryTurn key (Admits key) ⟨s, .none⟩ (before ++ interval) :=
    disciplined.and fewStarved
  obtain ⟨hbefore, hinterval⟩ := Script.EveryTurn.append_iff.mp admitted
  obtain ⟨disciplined', -⟩ := Script.EveryTurn.append_iff.mp disciplined
  obtain ⟨fewStarved', -⟩ := Script.EveryTurn.append_iff.mp fewStarved
  have hraised := (sound_throughout fresh disciplined' fewStarved').1.last
  have hturns : Throughout key (fun b => ∃ l, Sound key Stopped.InOperation b (o.withLock l) l)
        (after key ⟨s, .none⟩ before) interval ∧
      EveryTurn key (HoldsBack key) (after key ⟨s, .none⟩ before) interval := by
    apply (hinterval.and starved).keeps hraised
    rintro b t ⟨l, hb⟩ ⟨⟨hp, hroom⟩, hr⟩
    refine ⟨?_, hb.holdsBack (hb.isBarred_of_starved hr) hp hroom⟩
    obtain ⟨m, hm, -⟩ := hb.next hp hroom
    rw [Object.withLock_withLock] at hm
    exact ⟨m, hm⟩
  exact .of_turns hturns.2

/-- A reader runs out of patience while one writer is in and another in line. -/
def queueUp : List Turn :=
  [⟨0, 0, .waiting (.acquire .write)⟩, ⟨1, 0, .waiting (.acquire .write)⟩,
    ⟨2, 0, .waiting (.acquire .read)⟩, ⟨2, 0, .resume 501⟩]

/-- The writer in line overtakes the reader, and all who come later do not. -/
def overtake : List Turn :=
  [⟨3, 0, .waiting (.acquire .write)⟩, ⟨0, 0, .instant (.unlock .write)⟩,
    ⟨4, 0, .instant (.tryAcquire .write)⟩, ⟨1, 0, .resume 1⟩, ⟨3, 0, .resume 2⟩,
    ⟨2, 0, .resume 1⟩, ⟨1, 0, .instant (.unlock .write)⟩, ⟨3, 0, .resume 1⟩, ⟨2, 0, .resume 1⟩]

theorem starved_bypass_overtake :
    BypassBounded 0 (after 0 ⟨.start (.bare .fresh), .none⟩ queueUp) overtake ∧
      takers 0 (after 0 ⟨.start (.bare .fresh), .none⟩ queueUp) overtake = [1] := by
  constructor
  · exact starved_bypass 2 (Session.start_fresh rfl) (by decide +kernel)
      (by decide +kernel) (by decide +kernel)
  · decide +kernel

end ReaderWriter.Ledger
