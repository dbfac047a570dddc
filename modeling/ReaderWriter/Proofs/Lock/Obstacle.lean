import Mathlib.Tactic.SplitIfs
import ReaderWriter.Proofs.Lock.Attempt
import ReaderWriter.Proofs.Lock.Balance

/-!
# What stands in a writer's way

A writer comes to three waits, one after another, and each is over in some states
of the lock and not in others. Where a writer is stopped is the first wait from its
place onwards that is not over, and it returns if there is none. An attempt at the
write lock looks at the same three things in the same order, and what it is told is
the obstacle behind the first wait that it would come to.

So one function of the lock, `halt?`, decides what becomes of both.
-/

namespace ReaderWriter

namespace WriteWait

variable {l : Lock} {place w : WriteWait}

/-- The number of a wait in the order in which a writer comes to them. -/
def rank : WriteWait → Nat
  | .barrier => 0
  | .flag => 1
  | .drain => 2

/-- A writer that comes to the wait need not stop there. -/
def isOver (l : Lock) : WriteWait → Bool
  | .barrier => !l.isBarred
  | .flag => !l.flag
  | .drain => l.isEmpty

/-- The waits that lie before a writer, with the one it stands in. -/
def onward : WriteWait → List WriteWait
  | .barrier => [.barrier, .flag, .drain]
  | .flag => [.flag, .drain]
  | .drain => [.drain]

/-- The first wait from a place onwards that is not over. -/
def halt? (place : WriteWait) (l : Lock) : Option WriteWait :=
  place.onward.find? fun w => !w.isOver l

/-- What keeps a writer in a wait. -/
def obstacle : WriteWait → Busy
  | .barrier => .barred
  | .flag => .written
  | .drain => .readers

/-- The lock once the writer is past its wait for the flag. A writer that drains
the readers does not take the flag once more. -/
def owning (place : WriteWait) (l : Lock) : Lock :=
  if place = .drain then l else { l with flag := true }

theorem obstacle_inj {w w' : WriteWait} : w.obstacle = w'.obstacle ↔ w = w' := by
  cases w <;> cases w' <;> simp [obstacle]

@[simp] theorem mem_onward_iff : w ∈ place.onward ↔ place.rank ≤ w.rank := by
  cases place <;> cases w <;> simp [onward, rank]

theorem onward_pairwise (place : WriteWait) :
    place.onward.Pairwise fun w w' => w.rank < w'.rank := by
  cases place <;> simp [onward, rank]

theorem halt?_eq_none_iff :
    place.halt? l = none ↔ ∀ w : WriteWait, place.rank ≤ w.rank → w.isOver l = true := by
  simp [halt?]

/-- A writer is stopped in a wait that is not over, and it has passed those before it. -/
theorem of_halt? (h : place.halt? l = some w) :
    place.rank ≤ w.rank ∧ w.isOver l = false ∧
      ∀ w' : WriteWait, place.rank ≤ w'.rank → w'.rank < w.rank → w'.isOver l = true := by
  obtain ⟨hstop, early, late, hsplit, hearly⟩ := List.find?_eq_some_iff_append.mp h
  refine ⟨mem_onward_iff.mp (List.mem_of_find?_eq_some h), by simpa using hstop, ?_⟩
  intro w' hfrom hto
  have hsorted := place.onward_pairwise
  have hmem : w' ∈ place.onward := mem_onward_iff.mpr hfrom
  rw [hsplit] at hsorted hmem
  obtain ⟨-, htail, -⟩ := List.pairwise_append.mp hsorted
  -- A wait of a lower number lies before the stop in the list, as the list is in order.
  rcases List.mem_append.mp hmem with hw' | hw'
  · simpa using hearly w' hw'
  · rcases List.mem_cons.mp hw' with rfl | hlate
    · exact absurd hto (Nat.lt_irrefl _)
    · have hlater := (List.pairwise_cons.mp htail).1 w' hlate
      omega

theorem halt?_drain (l : Lock) : drain.halt? l = if l.isEmpty then none else some .drain := by
  cases he : l.isEmpty <;> simp [halt?, onward, isOver, he]

theorem halt?_flag (l : Lock) :
    flag.halt? l = if l.flag then some .flag else drain.halt? l := by
  cases hf : l.flag <;> simp [halt?, onward, isOver, hf]

theorem halt?_barrier (l : Lock) :
    barrier.halt? l = if l.isBarred then some .barrier else flag.halt? l := by
  cases hb : l.isBarred <;> simp [halt?, onward, isOver, hb]

/-- What becomes of a writer that is let go on. -/
theorem resume_eq (place : WriteWait) (l : Lock) : place.resume l =
    match place.halt? l with
    | none => .done (place.owning l) ()
    | some w => .pauseAt (if w = .drain then place.owning l else l) w := by
  have hdrain : ∀ m : Lock, m.writeDrain =
      match drain.halt? m with
      | none => .done m ()
      | some w => .pauseAt m w := by
    intro m
    rw [Lock.writeDrain, halt?_drain]
    split <;> rfl
  have hflag : l.writeFlag =
      match flag.halt? l with
      | none => .done (flag.owning l) ()
      | some w => .pauseAt (if w = .drain then flag.owning l else l) w := by
    rw [Lock.writeFlag, halt?_flag]
    cases hf : l.flag with
    | true =>
        rw [Lock.claim_of_flag hf]
        rfl
    | false =>
        have hsame : drain.halt? l = drain.halt? { l with flag := true } := rfl
        rw [Lock.claim_of_not_flag hf, if_neg Bool.false_ne_true, hsame]
        dsimp only
        rw [hdrain, halt?_drain]
        split_ifs <;> rfl
  cases place with
  | barrier =>
      rw [resume, Lock.write, halt?_barrier]
      split
      · rfl
      · exact hflag
  | flag => exact hflag
  | drain =>
      rw [resume, hdrain, halt?_drain]
      split_ifs <;> rfl

end WriteWait

/-- What becomes of an attempt at the write lock. -/
theorem Lock.tryWrite_eq_halt (l : Lock) : l.tryWrite =
    match WriteWait.barrier.halt? l with
    | none => ({ l with flag := true }, .ok ())
    | some w => (l, .error w.obstacle) := by
  rw [tryWrite_eq, WriteWait.halt?_barrier, WriteWait.halt?_flag, WriteWait.halt?_drain]
  simp only [isBarred_iff, isEmpty_iff, eq_comm (a := l.egress)]
  split_ifs <;> rfl

end ReaderWriter
