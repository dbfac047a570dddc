import ReaderWriter.Proofs.Session.Script

/-!
# Reordered scripts

Two scripts interleave the same turns if every actor takes the same turns in both,
in the same order. One comes from the other by letting neighbouring turns of
different actors change places, again and again.

So if such neighbours commute, both scripts lead to the same state, and every actor
is told the same in each of its turns. That is proved for one change of places, and
the rest is induction on how often they are changed.
-/

namespace ReaderWriter.Script

variable {σ α : Type}

/-- An actor's own turns of a script. -/
def own (actor : Nat) (script : List Turn) : List Turn :=
  script.filter fun t => t.actor = actor

/-- Every actor takes the same turns in both scripts, in the same order. -/
def Interleaves (first second : List Turn) : Prop :=
  ∀ actor, own actor first = own actor second

/-- The second script comes from the first by changes of places between neighbours
of different actors. -/
inductive Reorders : List Turn → List Turn → Prop
  | nil : Reorders [] []
  | cons (t : Turn) {first second : List Turn} (tail : Reorders first second) :
      Reorders (t :: first) (t :: second)
  | swap {t u : Turn} (others : t.actor ≠ u.actor) (rest : List Turn) :
      Reorders (t :: u :: rest) (u :: t :: rest)
  | trans {first second third : List Turn} (left : Reorders first second)
      (right : Reorders second third) : Reorders first third

/-- What an actor is told in its turns of a script. -/
def told (next : σ → Turn → σ) (answer : σ → Turn → α) (actor : Nat) : σ → List Turn → List α
  | _, [] => []
  | b, t :: rest =>
    if t.actor = actor then answer b t :: told next answer actor (next b t) rest
    else told next answer actor (next b t) rest

variable {next : σ → Turn → σ} {answer : σ → Turn → α} {P : σ → Turn → Prop} {b : σ}
variable {actor : Nat} {t : Turn} {first second rest : List Turn}

/-! ## Every interleaving is a reordering -/

theorem own_append (actor : Nat) (first rest : List Turn) :
    own actor (first ++ rest) = own actor first ++ own actor rest :=
  List.filter_append first rest

theorem own_of_notMem (h : ∀ t ∈ first, t.actor ≠ actor) : own actor first = [] := by
  apply List.filter_eq_nil_iff.mpr
  intro t ht
  simpa using h t ht

theorem interleaves_iff :
    Interleaves first second ↔ ∀ t ∈ first ++ second, own t.actor first = own t.actor second := by
  constructor
  · exact fun h t _ => h t.actor
  · intro h actor
    by_cases hmem : ∃ t ∈ first ++ second, t.actor = actor
    · obtain ⟨t, ht, rfl⟩ := hmem
      exact h t ht
    · have hnot : ∀ t ∈ first ++ second, t.actor ≠ actor := fun t ht ha => hmem ⟨t, ht, ha⟩
      rw [own_of_notMem fun t ht => hnot t (List.mem_append_left _ ht),
        own_of_notMem fun t ht => hnot t (List.mem_append_right _ ht)]

instance : Decidable (Interleaves first second) :=
  decidable_of_iff _ interleaves_iff.symm

namespace Reorders

theorem refl (script : List Turn) : Reorders script script := by
  induction script with
  | nil => exact .nil
  | cons t rest ih => exact .cons t ih

/-- A turn can be taken before the turns of other actors. -/
theorem advance (h : ∀ u ∈ first, u.actor ≠ t.actor) :
    Reorders (t :: (first ++ rest)) (first ++ t :: rest) := by
  induction first with
  | nil => exact .refl _
  | cons u first ih =>
      have hne : t.actor ≠ u.actor := (h u List.mem_cons_self).symm
      exact .trans (.swap hne (first ++ rest))
        (.cons u (ih fun v hv => h v (List.mem_cons_of_mem u hv)))

end Reorders

/-- Scripts that interleave the same turns come from each other by changes of places. -/
theorem Interleaves.reorders (h : Interleaves first second) : Reorders first second := by
  induction first generalizing second with
  | nil =>
      obtain rfl : second = [] := by
        apply List.eq_nil_iff_forall_not_mem.mpr
        intro t ht
        have hmem : t ∈ own t.actor second := List.mem_filter.mpr ⟨ht, by simp⟩
        rw [← h t.actor] at hmem
        cases hmem
      exact .nil
  | cons t first ih =>
      have hown : own t.actor second = t :: own t.actor first := by
        rw [← h t.actor, own, List.filter_cons_of_pos (by simp), own]
      obtain ⟨early, late, rfl, hothers, -, hlate⟩ := List.filter_eq_cons_iff.mp hown
      have hearly : ∀ u ∈ early, u.actor ≠ t.actor := fun u hu => by simpa using hothers u hu
      have htail : Interleaves first (early ++ late) := by
        intro actor
        by_cases ha : t.actor = actor
        · subst ha
          rw [own_append, own_of_notMem hearly, List.nil_append]
          exact hlate.symm
        · have hsame := h actor
          simpa [own, ha] using hsame
      exact .trans (.cons t (ih htail)) (.advance hearly)

/-! ## Turns that commute -/

/-- Turns of different actors commute, and neither is answered otherwise because of
the other. -/
structure Commutes (next : σ → Turn → σ) (answer : σ → Turn → α) : Prop where
  next_next : ∀ b {t u : Turn}, t.actor ≠ u.actor → next (next b t) u = next (next b u) t
  answer_next : ∀ b {t u : Turn}, t.actor ≠ u.actor → answer (next b t) u = answer b u

namespace Reorders

/-- Reordered turns that commute lead to the same state. -/
theorem run_eq (h : Reorders first second) (hcomm : Commutes next answer) (b : σ) :
    run next b first = run next b second := by
  induction h generalizing b with
  | nil => rfl
  | cons t _ ih => exact ih (next b t)
  | swap others rest => exact congrArg (run next · rest) (hcomm.next_next b others)
  | trans _ _ left right => exact (left b).trans (right b)

/-- Reordered turns that commute are answered in the same way. -/
theorem told_eq (h : Reorders first second) (hcomm : Commutes next answer) (actor : Nat) (b : σ) :
    told next answer actor b first = told next answer actor b second := by
  induction h generalizing b with
  | nil => rfl
  | cons t _ ih => simp only [told, ih]
  | @swap t u others rest =>
      have hswap := hcomm.next_next b others
      have hfirst := hcomm.answer_next b others
      have hsecond := hcomm.answer_next b others.symm
      by_cases ht : t.actor = actor
      · have hu : ¬ u.actor = actor := fun hu => others (ht.trans hu.symm)
        simp only [told, ht, hu, if_true, if_false, hswap, hsecond]
      · simp only [told, ht, if_false, hswap, hfirst]
  | trans _ _ left right => exact (left b).trans (right b)

/-- What holds of every turn, and is for nobody but its actor to change, holds of every
turn in any order. -/
theorem everyTurn (h : Reorders first second) (hcomm : Commutes next answer)
    (hown : ∀ b {t u : Turn}, t.actor ≠ u.actor → (P (next b t) u ↔ P b u))
    (hp : EveryTurn next P b first) : EveryTurn next P b second := by
  induction h generalizing b with
  | nil => trivial
  | cons t _ ih => exact ⟨hp.1, ih hp.2⟩
  | swap others rest =>
      obtain ⟨ht, hu, hrest⟩ := hp
      rw [hcomm.next_next b others] at hrest
      exact ⟨(hown b others).mp hu, (hown b others.symm).mpr ht, hrest⟩
  | trans _ _ left right => exact right (left hp)

end Reorders

end ReaderWriter.Script
