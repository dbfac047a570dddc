import ReaderWriter.Proofs.Linearization
import ReaderWriter.Proofs.Session.Teardown
import ReaderWriter.Round

/-!
# Schedules of a round

A schedule is a list of moves, each an access by one of the workers. It interleaves the
workers' passes over a plan if every worker makes the accesses of the plan, in order, and
nobody else makes any.

How often the workers read and write does not depend on the schedule, since each counts
its own accesses and these are those of the plan. What depends on it is the order in
which a queue is written and emptied; but as long as there are no more reads than there
were elements at the outset, it cannot run out.
-/

namespace ReaderWriter

/-- The access is a read. -/
def Access.isRead : Access → Bool
  | .read => true
  | .write _ => false

@[simp] theorem Access.isRead_read : Access.read.isRead = true := rfl

@[simp] theorem Access.isRead_write (value : UInt64) : (Access.write value).isRead = false := rfl

/-! ## Tallies -/

namespace Tally

/-- The reads and writes among some accesses. -/
def of (accesses : List Access) : Tally :=
  accesses.foldl count ⟨0, 0⟩

/-- Two tallies as one. -/
def add (t u : Tally) : Tally :=
  ⟨t.reads + u.reads, t.writes + u.writes⟩

/-- What several workers have counted. -/
def total (tallies : List Tally) : Tally :=
  tallies.foldl add ⟨0, 0⟩

theorem foldl_count (accesses : List Access) (t : Tally) : accesses.foldl count t =
    ⟨t.reads + accesses.countP Access.isRead, t.writes + accesses.countP (!·.isRead)⟩ := by
  induction accesses generalizing t with
  | nil => rfl
  | cons a rest ih =>
      rw [List.foldl_cons, ih]
      cases a <;> simp [count, List.countP_cons] <;> omega

theorem of_eq (accesses : List Access) :
    of accesses = ⟨accesses.countP Access.isRead, accesses.countP (!·.isRead)⟩ := by
  simp [of, foldl_count]

@[simp] theorem total_append_singleton (tallies : List Tally) (t : Tally) :
    total (tallies ++ [t]) = (total tallies).add t := by
  simp [total]

/-- Workers that have all counted the same. -/
theorem total_replicate (n : Nat) (t : Tally) :
    total (List.replicate n t) = ⟨n * t.reads, n * t.writes⟩ := by
  induction n with
  | zero => simp [total]
  | succ n ih =>
      rw [List.replicate_succ', total_append_singleton, ih, add]
      simp [Nat.add_mul]

end Tally

theorem Payload.workOf_eq_mapIdx (decisions : List Decision) (n : Nat) :
    workOf n decisions = decisions.mapIdx fun i d => accessOf (n + i) d := by
  induction decisions generalizing n with
  | nil => rfl
  | cons d rest ih =>
      rw [workOf, ih, List.mapIdx_cons]
      simp [Nat.add_assoc, Nat.add_comm 1]

namespace Plan

variable (plan : Plan)

/-- The accesses of a pass over the plan are those of a walk through it. -/
theorem accesses_eq_workOf : plan.accesses = Payload.workOf 0 plan.decisions := by
  simp [accesses, Payload.workOf_eq_mapIdx]

/-- A pass over the plan reads and writes as often as the plan does. -/
theorem tally_accesses : Tally.of plan.accesses = ⟨plan.reads, plan.writes⟩ := by
  have hcounts : ∀ (decisions : List Decision) (n : Nat),
      (Payload.workOf n decisions).countP Access.isRead = decisions.length - decisions.count .write ∧
        (Payload.workOf n decisions).countP (!·.isRead) = decisions.count .write := by
    intro decisions
    induction decisions with
    | nil => exact fun n => ⟨rfl, rfl⟩
    | cons d rest ih =>
        intro n
        obtain ⟨hreads, hwrites⟩ := ih (n + 1)
        have hle := rest.count_le_length (a := Decision.write)
        cases d <;> simp [Payload.workOf, Payload.accessOf, List.countP_cons, hreads, hwrites]
        omega
  obtain ⟨hreads, hwrites⟩ := hcounts plan.decisions 0
  rw [accesses_eq_workOf, Tally.of_eq, hreads, hwrites]
  rfl

end Plan

/-! ## Moves -/

namespace Round

/-- An access, and the worker that makes it. -/
structure Move where
  worker : Nat
  access : Access
deriving DecidableEq

/-- The accesses of a worker, in order. -/
def own (worker : Nat) (moves : List Move) : List Access :=
  (moves.filter fun m => m.worker = worker).map Move.access

/-- The workers below `threads` make the moves, and each goes through the plan in order. -/
structure Interleaves (plan : Plan) (threads : Nat) (moves : List Move) : Prop where
  workers : ∀ m ∈ moves, m.worker < threads
  order : ∀ w < threads, own w moves = plan.accesses

variable {plan : Plan} {threads : Nat} {moves : List Move}

/-- What a worker counts with a property is counted apart from those below it. -/
theorem countP_filter_lt_succ (p : Access → Bool) (moves : List Move) (n : Nat) :
    ((moves.filter fun m => m.worker < n + 1).map Move.access).countP p =
      ((moves.filter fun m => m.worker < n).map Move.access).countP p +
        (own n moves).countP p := by
  induction moves with
  | nil => rfl
  | cons m rest ih =>
      rw [own] at ih ⊢
      simp only [List.filter_cons]
      obtain hlt | heq | hgt := Nat.lt_trichotomy m.worker n
      · rw [if_pos (by simpa using Nat.lt_succ_of_lt hlt), if_pos (by simpa using hlt),
          if_neg (by simpa using Nat.ne_of_lt hlt)]
        simp only [List.map_cons, List.countP_cons, ih]
        omega
      · rw [if_pos (by simp [heq]), if_neg (by simp [heq]), if_pos (by simpa using heq)]
        simp only [List.map_cons, List.countP_cons, ih]
        omega
      · rw [if_neg (by simpa using Nat.succ_le_of_lt hgt), if_neg (by simpa using Nat.le_of_lt hgt),
          if_neg (by simpa using Nat.ne_of_gt hgt)]
        exact ih

/-- The workers below a number have counted all that they have made together. -/
theorem tally_filter_lt (moves : List Move) (threads : Nat) :
    Tally.of ((moves.filter fun m => m.worker < threads).map Move.access) =
      Tally.total ((List.range threads).map fun w => Tally.of (own w moves)) := by
  induction threads with
  | zero =>
      have hnone : (moves.filter fun m => m.worker < 0) = [] :=
        List.filter_eq_nil_iff.mpr (by simp)
      rw [hnone]
      rfl
  | succ n ih =>
      rw [List.range_succ, List.map_append, List.map_singleton, Tally.total_append_singleton, ← ih]
      simp only [Tally.of_eq, Tally.add, countP_filter_lt_succ]

namespace Interleaves

variable (h : Interleaves plan threads moves)
include h

/-- Every worker counts for itself, and together they have counted everything. -/
theorem tally_eq_total : Tally.of (moves.map Move.access) =
    Tally.total ((List.range threads).map fun w => Tally.of (own w moves)) := by
  have hall : (moves.filter fun m => m.worker < threads) = moves :=
    List.filter_eq_self.mpr fun m hm => decide_eq_true (h.workers m hm)
  rw [← tally_filter_lt, hall]

theorem tally_eq : Tally.of (moves.map Move.access) =
    ⟨threads * plan.reads, threads * plan.writes⟩ := by
  have hown : (List.range threads).map (fun w => Tally.of (own w moves)) =
      List.replicate threads (Tally.of plan.accesses) := by
    apply List.eq_replicate_iff.mpr
    refine ⟨by simp, ?_⟩
    intro t ht
    obtain ⟨w, hw, rfl⟩ := List.mem_map.mp ht
    rw [h.order w (List.mem_range.mp hw)]
  rw [h.tally_eq_total, hown, Tally.total_replicate, plan.tally_accesses]

theorem countP_isRead : (moves.map Move.access).countP Access.isRead = threads * plan.reads :=
  congrArg Tally.reads ((Tally.of_eq _).symm.trans h.tally_eq)

theorem countP_isWrite :
    (moves.map Move.access).countP (!·.isRead) = threads * plan.writes :=
  congrArg Tally.writes ((Tally.of_eq _).symm.trans h.tally_eq)

end Interleaves

theorem own_append (w : Nat) (first rest : List Move) :
    own w (first ++ rest) = own w first ++ own w rest := by
  simp [own]

theorem own_map (w worker : Nat) (accesses : List Access) :
    own w (accesses.map (Move.mk worker)) = if worker = w then accesses else [] := by
  rw [own, List.filter_map, List.map_map]
  split
  · next heq => simp [Function.comp_def, heq]
  · next hne => simp [Function.comp_def, hne]

/-- The workers may take their turns one after another. -/
theorem exists_interleaves_inTurn (plan : Plan) (threads : Nat) :
    ∃ moves, Interleaves plan threads moves ∧ moves.map Move.access = inTurn plan threads := by
  induction threads with
  | zero => exact ⟨[], ⟨nofun, nofun⟩, rfl⟩
  | succ n ih =>
      obtain ⟨moves, ⟨hworkers, horder⟩, hmoves⟩ := ih
      refine ⟨moves ++ plan.accesses.map (Move.mk n), ⟨?_, ?_⟩, ?_⟩
      · intro m hm
        obtain hm | hm := List.mem_append.mp hm
        · exact Nat.lt_succ_of_lt (hworkers m hm)
        · obtain ⟨a, -, rfl⟩ := List.mem_map.mp hm
          exact Nat.lt_succ_self n
      · intro w hw
        rw [own_append, own_map]
        obtain hlt | rfl := Nat.lt_succ_iff_lt_or_eq.mp hw
        · rw [horder w hlt, if_neg (Nat.ne_of_gt hlt), List.append_nil]
        · have hnone : own w moves = [] := by
            simp only [own, List.map_eq_nil_iff, List.filter_eq_nil_iff, decide_eq_true_iff]
            exact fun m hm => Nat.ne_of_lt (hworkers m hm)
          rw [hnone, if_pos rfl, List.nil_append]
      · rw [List.map_append, hmoves, List.map_map]
        simp [inTurn, List.replicate_succ', Function.comp_def]

end Round

/-! ## What a schedule does to a store -/

theorem Access.length_written (accesses : List Access) :
    (written accesses).length = accesses.countP (!·.isRead) := by
  induction accesses with
  | nil => rfl
  | cons a rest ih => cases a <;> simp_all [written]

namespace Store

/-- A list gets the values that are written at its head. -/
theorem foldl_apply_list (accesses : List Access) (nodes : List UInt64) :
    accesses.foldl apply (.list nodes) = .list ((Access.written accesses).reverse ++ nodes) := by
  induction accesses generalizing nodes with
  | nil => rfl
  | cons a rest ih =>
      rw [List.foldl_cons]
      cases a with
      | write value =>
          have hstep : apply (.list nodes) (.write value) = .list (value :: nodes) := rfl
          rw [hstep, ih]
          simp [Access.written]
      | read => exact ih nodes

/-- Every read takes an element if there are no more of them than elements at the outset. -/
theorem removals_eq {accesses : List Access} {elements : Fifo UInt64} (popped : Nat)
    (h : accesses.countP Access.isRead ≤ elements.toList.length) :
    removals (.queue elements popped) accesses = accesses.countP Access.isRead := by
  induction accesses generalizing elements popped with
  | nil => rfl
  | cons a rest ih =>
      rw [List.countP_cons] at h ⊢
      cases a with
      | write value =>
          rw [removals, put]
          exact ih popped (by simp at h ⊢; omega)
      | read =>
          have hne : elements.isEmpty = false := by
            rw [Fifo.isEmpty_eq]
            cases hlist : elements.toList with
            | nil => simp [hlist] at h
            | cons front back => rfl
          rw [removals_read_of_not_isEmpty hne, ih]
          · rfl
          · simp at h ⊢
            omega

/-- In a queue that is filled for the reads, elements come in by the writes and go out by
the reads. -/
theorem foldl_apply_prefilled {accesses : List Access} {length : Nat}
    (h : accesses.countP Access.isRead ≤ length) :
    ∃ elements, accesses.foldl apply (.prefilled length) =
        .queue elements (accesses.countP Access.isRead) ∧
      elements.toList.length = length + accesses.countP (!·.isRead) -
        accesses.countP Access.isRead := by
  have hlength : (Fifo.ofList ((List.range length).map UInt64.ofNat)).toList.length = length := by
    simp
  obtain ⟨elements, hfold, hlist⟩ :=
    foldl_apply_queue accesses (.ofList ((List.range length).map UInt64.ofNat)) 0
  rw [removals_eq 0 (hlength.symm ▸ h)] at hfold hlist
  rw [Nat.zero_add] at hfold
  refine ⟨elements, hfold, ?_⟩
  rw [hlist, List.length_drop, List.length_append, hlength, Access.length_written]

/-- Before the last of the reads it was filled for, a queue is not empty. -/
theorem foldl_apply_prefilled_ne_nil {accesses : List Access} {length : Nat}
    (h : accesses.countP Access.isRead < length) :
    (accesses.foldl apply (.prefilled length)).toList ≠ [] := by
  obtain ⟨elements, hfold, hlength⟩ := foldl_apply_prefilled (Nat.le_of_lt h)
  rw [hfold]
  apply List.ne_nil_of_length_pos
  change 0 < elements.toList.length
  omega

/-- There are no more removals than reads, nor more than elements that ever were there. -/
theorem removals_le (accesses : List Access) (elements : Fifo UInt64) (popped : Nat) :
    removals (.queue elements popped) accesses ≤ accesses.countP Access.isRead ∧
      removals (.queue elements popped) accesses ≤
        elements.toList.length + accesses.countP (!·.isRead) := by
  induction accesses generalizing elements popped with
  | nil => exact ⟨Nat.le_refl _, Nat.zero_le _⟩
  | cons a rest ih =>
      simp only [List.countP_cons]
      cases a with
      | write value =>
          obtain ⟨hreads, hlength⟩ := ih (elements.push value) popped
          rw [Fifo.toList_push, List.length_append] at hlength
          rw [removals, put]
          exact ⟨hreads, by simp at hlength ⊢; omega⟩
      | read =>
          cases hempty : elements.isEmpty with
          | true =>
              obtain ⟨hreads, hlength⟩ := ih elements popped
              rw [removals_read_of_isEmpty hempty]
              exact ⟨Nat.le_add_right_of_le hreads, hlength⟩
          | false =>
              obtain ⟨hreads, hlength⟩ := ih elements.pop (popped + 1)
              rw [Fifo.toList_pop, List.length_tail] at hlength
              have hsome : 0 < elements.toList.length := by
                rw [List.length_pos_iff]
                rw [Fifo.isEmpty_eq] at hempty
                exact fun hnil => by simp [hnil] at hempty
              rw [removals_read_of_not_isEmpty hempty]
              exact ⟨by simpa using hreads, by simp; omega⟩

/-- Whether there is enough for the reads or not, an element that is gone has been taken. -/
theorem foldl_apply_conserves (accesses : List Access) (elements : Fifo UInt64) (popped : Nat) :
    ∃ elements' taken, accesses.foldl apply (.queue elements popped) =
        .queue elements' (popped + taken) ∧
      elements'.toList.length + taken =
        elements.toList.length + accesses.countP (!·.isRead) ∧
      taken ≤ accesses.countP Access.isRead := by
  obtain ⟨elements', hfold, hlist⟩ := foldl_apply_queue accesses elements popped
  obtain ⟨hreads, hlength⟩ := removals_le accesses elements popped
  refine ⟨elements', _, hfold, ?_, hreads⟩
  rw [hlist, List.length_drop, List.length_append, Access.length_written]
  exact Nat.sub_add_cancel hlength

end Store

/-! ## Payloads that are played -/

/-- What is logged of the end of an idle payload, `last` being the record of its store. -/
def Scheme.closing : Scheme → Record → List Record
  | .writerFirst _, last => [.lockDestroyed, last]
  | _, _ => []

namespace Payload

variable {p : Payload} {l : Lock}

/-- Nobody holds the lock of the payload or waits for it, if it is one of ours. -/
def Idle (p : Payload) : Prop :=
  ∀ l, p.lock? = some l → l.Balanced 0 0 0

/-- The payload after some accesses, under the words `m` if it has any. -/
def following (p : Payload) (accesses : List Access) (m : Lock) : Payload :=
  Payload.withLock { p with store := accesses.foldl Store.apply p.store } m

@[simp] theorem store_following (p : Payload) (accesses : List Access) (m : Lock) :
    (p.following accesses m).store = accesses.foldl Store.apply p.store :=
  store_withLock _ m

@[simp] theorem name_following (p : Payload) (accesses : List Access) (m : Lock) :
    (p.following accesses m).scheme.name = p.scheme.name := by
  obtain ⟨scheme, store⟩ := p
  cases scheme <;> rfl

@[simp] theorem closing_following (p : Payload) (accesses : List Access) (m : Lock)
    (last : Record) : (p.following accesses m).scheme.closing last = p.scheme.closing last := by
  obtain ⟨scheme, store⟩ := p
  cases scheme <;> rfl

theorem following_idle (p : Payload) (accesses : List Access) (hm : l.Balanced 0 0 0) :
    (p.following accesses l).Idle := by
  obtain ⟨scheme, store⟩ := p
  intro l' hl'
  cases scheme with
  | writerFirst m =>
      cases hl'
      exact hm
  | _ => cases hl'

/-- An access to an idle payload is over at once. -/
theorem access_idle (hp : p.Idle) (a : Access) : ∃ m, m.Balanced 0 0 0 ∧
    (p.access a).progress = .finished () ∧ (p.access a).state = p.following [a] m := by
  obtain ⟨scheme, store⟩ := p
  cases scheme with
  | writerFirst l =>
      obtain ⟨-, -, hfalse⟩ | ⟨result, hf, hstore, hb⟩ :=
        (Cell.access_free (c := ⟨l, store⟩) a (hp l rfl)).cases
      · exact hfalse.elim
      · refine ⟨_, hb, hf, ?_⟩
        rw [access, Stride.state_within, ofCell, hstore]
        rfl
  | _ => exact ⟨.fresh, Lock.fresh_balanced, rfl, rfl⟩

theorem exists_following_nil (hp : p.Idle) : ∃ m, m.Balanced 0 0 0 ∧ p.following [] m = p := by
  obtain ⟨scheme, store⟩ := p
  cases scheme with
  | writerFirst l => exact ⟨l, hp l rfl, rfl⟩
  | _ => exact ⟨.fresh, Lock.fresh_balanced, rfl⟩

theorem following_following (p : Payload) (first rest : List Access) (m m' : Lock) :
    (p.following first m).following rest m' = p.following (first ++ rest) m' := by
  obtain ⟨scheme, store⟩ := p
  cases scheme <;> simp [following, withLock]

/-- Played by its accesses alone, a payload stays idle, and all of them are over. -/
theorem play_idle (hp : p.Idle) (schedule : List Access) :
    ∃ m, m.Balanced 0 0 0 ∧ p.play schedule = ⟨p.following schedule m, Tally.of schedule⟩ := by
  -- The workers have counted before, once some of the accesses are over.
  have hplay : ∀ t : Tally, ∃ m, m.Balanced 0 0 0 ∧
      schedule.foldl Played.perform ⟨p, t⟩ =
        ⟨p.following schedule m, schedule.foldl Tally.count t⟩ := by
    induction schedule generalizing p with
    | nil =>
        intro t
        obtain ⟨m, hm, hnil⟩ := exists_following_nil hp
        exact ⟨m, hm, by rw [hnil]; rfl⟩
    | cons a rest ih =>
        intro t
        obtain ⟨m, hm, -, hstate⟩ := access_idle hp a
        obtain ⟨m', hm', hrest⟩ := ih (p.following_idle [a] hm) (t.count a)
        refine ⟨m', hm', ?_⟩
        rw [List.foldl_cons, Played.perform, hstate, hrest, following_following]
        rfl
  exact hplay ⟨0, 0⟩

theorem finish_idle (hp : p.Idle) :
    p.finish = ⟨p, p.scheme.closing (closingRecord p.store), .finished ()⟩ := by
  obtain ⟨scheme, store⟩ := p
  cases scheme with
  | writerFirst l =>
      have hb := hp l rfl
      have hcheck : l.checkReleased = .ok () := by
        rw [Lock.checkReleased, hb.flag_eq_false, if_neg Bool.false_ne_true,
          if_pos hb.isEmpty_eq_true]
      rw [finish_writerFirst, hcheck]
      rfl
  | _ => rfl

end Payload

end ReaderWriter
