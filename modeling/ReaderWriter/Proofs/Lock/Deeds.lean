import ReaderWriter.Proofs.Lock.Waiting

/-!
# What a reader does to the lock

A reader's call touches the lock in four ways: it arrives, departs, raises the
barrier and lowers it. What it does between two pauses is a list of such deeds,
and so is what it has done since it began. The list depends on nothing but the
number of the pause the reader stands in, or returns from to get in.

The raise and the lower are also what the call logs, so a list of deeds says
what becomes of the words and of the log at once.
-/

namespace ReaderWriter

/-- A way for a reader to touch the lock. -/
inductive Deed where
  | arrive
  | depart
  | raise
  | lower
deriving DecidableEq

namespace Deed

/-- What a deed does to the words: it adds one to a counter or to the barrier, or
takes one from the barrier, and leaves the other words as they are. -/
def act : Deed → Lock → Lock
  | .arrive, l => { l with ingress := l.ingress + 1 }
  | .depart, l => { l with egress := l.egress + 1 }
  | .raise, l => { l with barrier := l.barrier + 1 }
  | .lower, l => { l with barrier := l.barrier - 1 }

/-- What a deed logs. -/
def record? : Deed → Option Record
  | .arrive | .depart => none
  | .raise => some (.outOfPatience 500)
  | .lower => some .barrierLowered

/-- The lock after some deeds. -/
def run (deeds : List Deed) (l : Lock) : Lock :=
  deeds.foldl (fun m deed => deed.act m) l

/-- What some deeds log. -/
def log (deeds : List Deed) : List Record :=
  deeds.filterMap record?

/-- What a reader that stands in its pause `p` has done since it began. It has
raised the barrier if it has returned from pause 501, the first past its patience. -/
def whileOut (p : Nat) : List Deed :=
  if 501 < p then [arrive, depart, raise] else [arrive, depart]

/-- What a reader that has returned from its pause `p` to get in has done since
it began; it has never paused if `p` is 0. -/
def whenIn (p : Nat) : List Deed :=
  if p = 0 then [arrive]
  else if 501 ≤ p then [arrive, depart, raise, arrive, lower]
  else [arrive, depart, arrive]

/-- What some deeds come to: they add so much to each word, leave the flag as it is,
and log the records. -/
structure ComeTo (deeds : List Deed) (ingress egress : UInt32) (barrier : Int32)
    (records : List Record) : Prop where
  words : ∀ l, run deeds l =
    ⟨l.ingress + ingress, l.egress + egress, l.barrier + barrier, l.flag⟩
  log : log deeds = records

theorem whileOut_comesTo (p : Nat) : ComeTo (whileOut p) 1 1 (if 501 < p then 1 else 0)
    (if 501 < p then [.outOfPatience 500] else []) := by
  rw [whileOut]
  split
  · exact ⟨fun l => rfl, rfl⟩
  · exact ⟨fun l => by simp [run, act], rfl⟩

theorem whenIn_comesTo (p : Nat) :
    ComeTo (whenIn p) (if p = 0 then 1 else 2) (if p = 0 then 0 else 1) 0
      (if 501 ≤ p then [.outOfPatience 500, .barrierLowered] else []) := by
  have htwice : ∀ n : UInt32, n + 1 + 1 = n + 2 := fun n => by
    rw [UInt32.add_assoc]
    rfl
  have hback : ∀ n : Int32, n + 1 - 1 = n := by
    grind
  rw [whenIn]
  split
  · next hnow =>
      rw [if_neg (by omega)]
      exact ⟨fun l => by simp [run, act], rfl⟩
  · split
    · exact ⟨fun l => by simp [run, act, htwice, hback], rfl⟩
    · exact ⟨fun l => by simp [run, act, htwice], rfl⟩

/-- Deeds that add as much to one counter as to the other leave the number of readers as
it was, and each that they add more to the first is a reader more. -/
theorem ComeTo.registered {deeds : List Deed} {ingress egress : UInt32} {barrier : Int32}
    {records : List Record} (h : ComeTo deeds ingress egress barrier records) (l : Lock) :
    (run deeds l).registered = l.registered + (ingress - egress) := by
  rw [h.words, Lock.registered, Lock.registered]
  grind

/-- What a reader does on its way from its pause `p` to its pause `q`. -/
def between (p q : Nat) : List Deed :=
  if p ≤ 501 ∧ 501 < q then [raise] else []

/-- What a reader does when it returns from its pause `p` to get in. -/
def entering (p : Nat) : List Deed :=
  if p = 501 then [raise, arrive, lower]
  else if 501 < p then [arrive, lower]
  else [arrive]

variable {p q : Nat}

theorem between_self (p : Nat) : between p p = [] := by
  rw [between, if_neg]
  omega

theorem whileOut_append_between (hq : p ≤ q) : whileOut p ++ between p q = whileOut q := by
  rw [whileOut, whileOut, between]
  split
  · rw [if_neg (by omega), if_pos (by omega)]
    rfl
  · split
    · rw [if_pos (by omega)]
      rfl
    · rw [if_neg (by omega)]
      rfl

theorem whileOut_append_entering (hp : 0 < p) : whileOut p ++ entering p = whenIn p := by
  rw [whileOut, entering, whenIn, if_neg (Nat.ne_of_gt hp)]
  split
  · rw [if_neg (by omega), if_pos (by omega)]
    rfl
  · split
    · rw [if_pos (by omega)]
      rfl
    · rw [if_neg (by omega)]
      rfl

theorem between_append_between {r : Nat} (hq : p ≤ q) (hr : q ≤ r) :
    between p q ++ between q r = between p r := by
  rw [between, between, between]
  split
  · rw [if_neg (by omega), if_pos (by omega)]
    rfl
  · rw [List.nil_append]
    refine if_congr ?_ rfl rfl
    omega

theorem run_append (first rest : List Deed) (l : Lock) :
    run (first ++ rest) l = run rest (run first l) :=
  List.foldl_append

theorem log_append (first rest : List Deed) : log (first ++ rest) = log first ++ log rest :=
  List.filterMap_append

/-- Readers leave the flag alone. -/
@[simp] theorem run_flag (deeds : List Deed) (l : Lock) : (run deeds l).flag = l.flag := by
  induction deeds generalizing l with
  | nil => rfl
  | cons deed deeds ih =>
      have hact : (deed.act l).flag = l.flag := by
        cases deed <;> rfl
      exact (ih (deed.act l)).trans hact

/-- Each deed adds to a word or takes from it, so deeds commute. -/
theorem act_act (deed other : Deed) (l : Lock) :
    other.act (deed.act l) = deed.act (other.act l) := by
  have hbarrier : l.barrier + 1 - 1 = l.barrier - 1 + 1 := by
    grind
  cases deed <;> cases other <;> simp [act, hbarrier]

theorem run_act (deed : Deed) (deeds : List Deed) (l : Lock) :
    run deeds (deed.act l) = deed.act (run deeds l) := by
  induction deeds generalizing l with
  | nil => rfl
  | cons other deeds ih =>
      change run deeds (other.act (deed.act l)) = deed.act (run deeds (other.act l))
      rw [act_act, ih]

theorem run_run (first second : List Deed) (l : Lock) :
    run second (run first l) = run first (run second l) := by
  induction first generalizing l with
  | nil => rfl
  | cons deed first ih =>
      change run second (run first (deed.act l)) = run first (deed.act (run second l))
      rw [ih, run_act]

end Deed

open Deed

variable {l : Lock} {readers owners raisers p q : Nat}

/-! ## The strides of a reader -/

/-- A reader that begins while the flag is taken registers and steps back. -/
theorem Lock.read_of_flag (hf : l.flag = true) :
    l.read = ⟨run (whileOut 1) l, log (whileOut 1), .paused (.standing 1)⟩ := by
  rw [Lock.read, arrive_flag, if_pos hf]
  rfl

theorem Lock.read_of_not_flag (hf : l.flag = false) :
    l.read = ⟨run (whenIn 0) l, log (whenIn 0), .finished ()⟩ := by
  rw [Lock.read, arrive_flag, if_neg (ne_true_of_eq_false hf)]
  rfl

theorem ReadWait.raised_standing (h : 501 < p) : (standing p).raised = true :=
  decide_eq_true h

theorem ReadWait.not_raised_standing (h : p ≤ 501) : (standing p).raised = false :=
  decide_eq_false (Nat.not_lt.mpr h)

/-- While the flag is taken, a reader that returns from a pause enters the next. -/
theorem ReadWait.resume_of_flag (hp : 0 < p) (hf : l.flag = true) :
    (standing p).resume l =
      ⟨run (between p (p + 1)) l, log (between p (p + 1)), .paused (standing (p + 1))⟩ := by
  have hstarving : (standing p).isStarving = true ↔ p = 501 := isStarving_standing hp
  rw [resume, next_standing hp, between]
  by_cases hlast : p = 501
  · have hspins := spins_of_isStarving hp (hstarving.mpr hlast)
    simp only [if_pos (hstarving.mpr hlast), Lock.raise_flag, if_pos hf, hspins]
    rw [if_pos (by omega)]
    rfl
  · simp only [if_neg (mt hstarving.mp hlast), if_pos hf]
    rw [if_neg (by omega)]
    rfl

/-- What a spinning reader has at stake is in the balance at every pause. -/
theorem Lock.Balanced.run_between
    (h : l.Balanced readers owners (raisers + (ReadWait.standing p).raised.toNat)) (hq : p ≤ q)
    (few : raisers + (ReadWait.standing q).raised.toNat < 2 ^ 31) :
    (run (between p q) l).Balanced readers owners
      (raisers + (ReadWait.standing q).raised.toNat) := by
  rw [between]
  split
  · next hcross =>
      rw [ReadWait.not_raised_standing hcross.1] at h
      rw [ReadWait.raised_standing hcross.2] at few ⊢
      exact h.raise few
  · next hstay =>
      have hsame : (ReadWait.standing q).raised = (ReadWait.standing p).raised := by
        obtain hpast | hnot := Nat.lt_or_ge 501 p
        · rw [ReadWait.raised_standing hpast, ReadWait.raised_standing (by omega)]
        · rw [ReadWait.not_raised_standing hnot, ReadWait.not_raised_standing (by omega)]
      rw [hsame]
      exact h

/-- A reader that has raised the barrier can lower it when it gets in. -/
theorem Lock.readAgain_raised {π : Type} (h : l.Balanced readers owners (raisers + 1)) :
    (l.readAgain true : Stride Lock π Unit) =
      ⟨run [.arrive, .lower] l, log [.arrive, .lower], .finished ()⟩ := by
  obtain ⟨m, hlower, -⟩ := h.arrive.lower
  have hm : run [.arrive, .lower] l = m := congrArg Prod.fst hlower
  rw [Lock.readAgain, if_pos rfl, hlower, hm]
  rfl

/-- A reader that finds the flag down when it returns from a pause gets in. Its
raise of the barrier is in the balance, so it can be taken back. -/
theorem ReadWait.resume_enters (hp : 0 < p)
    (hb : l.Balanced readers owners (raisers + (standing p).raised.toNat))
    (hf : l.flag = false) (few : p = 501 → raisers + 1 < 2 ^ 31) :
    (standing p).resume l = ⟨run (entering p) l, log (entering p), .finished ()⟩ := by
  have hstarving : (standing p).isStarving = true ↔ p = 501 := isStarving_standing hp
  rw [resume, next_standing hp]
  by_cases hlast : p = 501
  · have hspins := spins_of_isStarving hp (hstarving.mpr hlast)
    have hraised : (standing (p + 1)).raised = true := raised_standing (by omega)
    have hnot : (standing p).raised = false := not_raised_standing (by omega)
    rw [hnot] at hb
    simp only [if_pos (hstarving.mpr hlast), Lock.raise_flag, if_neg (ne_true_of_eq_false hf),
      hraised, Lock.readAgain_raised (hb.raise (few hlast)), hspins, entering, if_pos hlast]
    rfl
  · have hcalm : ¬ (standing p).isStarving = true := mt hstarving.mp hlast
    simp only [if_neg hcalm, if_neg (ne_true_of_eq_false hf), List.nil_append, entering,
      if_neg hlast]
    by_cases hpast : 501 < p
    · have hraised : (standing p).raised = true := raised_standing hpast
      have hraised' : (standing (p + 1)).raised = true := raised_standing (by omega)
      rw [hraised] at hb
      rw [hraised', Lock.readAgain_raised hb, if_pos hpast]
    · have hnot : (standing (p + 1)).raised = false := not_raised_standing (by omega)
      rw [hnot, if_neg hpast]
      rfl

end ReaderWriter
