import ReaderWriter.Proofs.Payload.Prompt

/-!
# Payloads behave as if under a mutex

Whatever a script does with a payload under the lock, its store is at every
moment that of the same payload under a mutex to which the accesses that have
been performed were applied one after another, in the order they ended. It does
not matter where the calls are stopped in the meantime, who holds the lock by
itself, or why an upgrade is refused.

For a queue this accounts for every element. The elements are those of the
outset and those written since, in order, less the ones in front that reads
have removed.
-/

namespace ReaderWriter

/-! ## What accesses do to a queue -/

/-- The values that are written, in order. -/
def Access.written (accesses : List Access) : List UInt64 :=
  accesses.filterMap fun
    | .write value => some value
    | .read => none

namespace Store

/-- The reads among accesses that remove an element. -/
def removals : Store → List Access → Nat
  | _, [] => 0
  | s, .write value :: rest => (s.put value).removals rest
  | s, .read :: rest => (!s.readsInPlace).toNat + s.take.removals rest

theorem removals_read_of_isEmpty {elements : Fifo UInt64} (h : elements.isEmpty = true)
    (popped : Nat) (rest : List Access) :
    removals (.queue elements popped) (.read :: rest) = removals (.queue elements popped) rest := by
  rw [removals, take, if_pos h, readsInPlace, h]
  exact Nat.zero_add _

theorem removals_read_of_not_isEmpty {elements : Fifo UInt64} (h : elements.isEmpty = false)
    (popped : Nat) (rest : List Access) :
    removals (.queue elements popped) (.read :: rest) =
      removals (.queue elements.pop (popped + 1)) rest + 1 := by
  rw [removals, take, if_neg (ne_true_of_eq_false h), readsInPlace, h]
  exact Nat.add_comm _ _

/-- Nothing in a queue is lost, duplicated or reordered. -/
theorem foldl_apply_queue (accesses : List Access) (elements : Fifo UInt64) (popped : Nat) :
    ∃ elements', accesses.foldl apply (.queue elements popped) =
        .queue elements' (popped + removals (.queue elements popped) accesses) ∧
      elements'.toList = (elements.toList ++ Access.written accesses).drop
        (removals (.queue elements popped) accesses) := by
  induction accesses generalizing elements popped with
  | nil => exact ⟨elements, rfl, (List.append_nil _).symm⟩
  | cons a rest ih =>
      rw [List.foldl_cons]
      cases a with
      | write value =>
          obtain ⟨elements', hfold, hlist⟩ := ih (elements.push value) popped
          refine ⟨elements', hfold, ?_⟩
          rw [hlist, Fifo.toList_push, List.append_assoc]
          rfl
      | read =>
          cases hempty : elements.isEmpty with
          | true =>
              have hstep : apply (.queue elements popped) .read = .queue elements popped :=
                if_pos hempty
              obtain ⟨elements', hfold, hlist⟩ := ih elements popped
              rw [hstep, removals_read_of_isEmpty hempty]
              exact ⟨elements', hfold, hlist⟩
          | false =>
              have hstep : apply (.queue elements popped) .read =
                  .queue elements.pop (popped + 1) := if_neg (ne_true_of_eq_false hempty)
              obtain ⟨elements', hfold, hlist⟩ := ih elements.pop (popped + 1)
              rw [hstep, removals_read_of_not_isEmpty hempty]
              refine ⟨elements', ?_, ?_⟩
              · rw [hfold, Nat.add_assoc, Nat.add_comm 1]
              · rw [Fifo.isEmpty_eq] at hempty
                obtain ⟨x, xs, hxs⟩ : ∃ x xs, elements.toList = x :: xs :=
                  List.exists_cons_of_ne_nil fun hnil => by rw [hnil] at hempty; cases hempty
                rw [hlist, Fifo.toList_pop, hxs]
                rfl

end Store

/-! ## The same accesses under a mutex -/

/-- The access as a turn of a script on one object. -/
def Access.turn : Access → Turn
  | .write value => ⟨0, 0, .write "" value⟩
  | .read => ⟨0, 0, .read ""⟩

namespace Session

variable {s : Session} {store : Store}

/-- Under a mutex an access is done in one turn. -/
theorem step_mutex (ho : s.objects.get? 0 = some (.payload ⟨.mutex, store⟩))
    (hfree : s.stopped.get? 0 = none) (a : Access) :
    (s.step a.turn).1.objects.get? 0 = some (.payload ⟨.mutex, store.apply a⟩) ∧
      (s.step a.turn).1.stopped.get? 0 = none := by
  have htake : s.take a.turn = s.settle 0 0 1
      (Call.strideOnPayload (PayloadCall.enter ⟨.mutex, store⟩ a)) := by
    cases a with
    | write value =>
        rw [Access.turn, take_of_free hfree ho rfl, act, launch]
    | read =>
        rw [Access.turn, take_of_free hfree ho rfl, act, launch]
  rw [step, htake]
  constructor
  · exact (congrArg (·.get? 0) (settle_objects _ _ _ _ _)).trans (Registry.get?_insert_self _ _ _)
  · exact settle_get?_self _ _ _ _ _

theorem after_mutex (ho : s.objects.get? 0 = some (.payload ⟨.mutex, store⟩))
    (hfree : s.stopped.get? 0 = none) (accesses : List Access) :
    (s.after (accesses.map Access.turn)).objects.get? 0 =
      some (.payload ⟨.mutex, accesses.foldl Store.apply store⟩) := by
  induction accesses generalizing s store with
  | nil => exact ho
  | cons a rest ih =>
      obtain ⟨ho', hfree'⟩ := step_mutex ho hfree a
      exact ih ho' hfree'

end Session

/-! ## Whole scripts -/

namespace Ledger

variable {key : Nat} {b : Ledger} {l : Lock} {store : Store} {script : List Turn}

/-- The accesses that a script performs, in the order they end. -/
def performed (key : Nat) : Ledger → List Turn → List Access
  | _, [] => []
  | b, t :: rest => b.session.performed key t ++ performed key (b.next key t) rest

/-- The payload is under the lock what it would be under a mutex, had the
accesses been applied to it one after another. -/
def MatchesMutex (key : Nat) (b : Ledger) (store : Store) (accesses : List Access)
    (reached : Store) : Prop :=
  (∃ l, b.session.objects.get? key = some (.payload ⟨.writerFirst l, reached⟩)) ∧
    ((Session.start (.payload ⟨.mutex, store⟩)).after (accesses.map Access.turn)).objects.get? 0 =
      some (.payload ⟨.mutex, reached⟩)

/-- The queue holds what it held at the outset and what was written since, in
order, less the elements in front that were removed. -/
def QueueAccounted (length : Nat) (accesses : List Access) (reached : Store) : Prop :=
  reached.popped = (Store.prefilled length).removals accesses ∧
    reached.toList =
      ((List.range length).map UInt64.ofNat ++ Access.written accesses).drop reached.popped

theorem Sound.serve_script
    (h : Sound key Stopped.Attends b (.payload ⟨.writerFirst l, store⟩) l)
    (serves : EveryTurn key (Serves key) b script) (few : FewStopped key b script) :
    EveryTurn key (Faithful key) b script ∧
      ∃ m, Sound key Stopped.Attends (b.after key script)
        (.payload ⟨.writerFirst m, (performed key b script).foldl Store.apply store⟩) m := by
  induction script generalizing b l store with
  | nil => exact ⟨trivial, l, h⟩
  | cons t rest ih =>
      obtain ⟨hfaithful, m, hm⟩ := h.serve serves.1 few.1 few.2.start
      obtain ⟨hrest, m', hm'⟩ := ih hm serves.2 few.2
      refine ⟨⟨hfaithful, hrest⟩, m', ?_⟩
      rw [performed, List.foldl_append]
      exact hm'

/-- While nothing but accesses is asked of a fresh payload, all are prompt. -/
theorem Sound.prompt_script
    (h : Sound key Stopped.Attends b (.payload ⟨.writerFirst l, store⟩) l) (hq : b.Quiet key)
    (hnone : b.holds = .none) (serves : EveryTurn key (Serves key) b script)
    (few : FewStopped key b script) (plain : EveryTurn key (Plain key) b script) :
    EveryTurn key (Prompt key) b script := by
  induction script generalizing b l store with
  | nil => trivial
  | cons t rest ih =>
      -- A prompt turn stops nobody, which is what the next turn needs to be prompt.
      obtain ⟨-, m, hm⟩ := h.serve serves.1 few.1 few.2.start
      obtain ⟨hq', hnone', hprompt⟩ := h.prompt hq hnone plain.1
      exact ⟨hprompt, ih hm hq' hnone' serves.2 few.2 plain.2⟩

/-- A payload in service has at every moment the store of the same payload under
a mutex after the accesses performed so far. If nothing but accesses is asked
of it, each of them is performed in the turn that asks for it. -/
theorem payload_linearizable {s : Session}
    (fresh : s.Fresh key (.payload ⟨.writerFirst .fresh, store⟩))
    (serves : EveryTurn key (Serves key) ⟨s, .none⟩ script)
    (few : FewStopped key ⟨s, .none⟩ script) :
    (∀ first rest, script = first ++ rest →
      ∃ reached, MatchesMutex key (after key ⟨s, .none⟩ first) store
          (performed key ⟨s, .none⟩ first) reached ∧
        ∀ length, store = .prefilled length →
          QueueAccounted length (performed key ⟨s, .none⟩ first) reached) ∧
      EveryTurn key (Faithful key) ⟨s, .none⟩ script ∧
      (EveryTurn key (Plain key) ⟨s, .none⟩ script →
        EveryTurn key (Prompt key) ⟨s, .none⟩ script) := by
  have hsound : Sound key Stopped.Attends ⟨s, .none⟩ (.payload ⟨.writerFirst .fresh, store⟩)
    .fresh := .of_fresh fresh
  refine ⟨?_, (hsound.serve_script serves few).1,
    hsound.prompt_script fresh.unused rfl serves few⟩
  rintro first rest rfl
  obtain ⟨-, m, hm⟩ := hsound.serve_script (Script.EveryTurn.append_iff.mp serves).1 few.of_append
  refine ⟨_, ⟨⟨m, hm.object⟩, Session.after_mutex rfl rfl _⟩, ?_⟩
  rintro length rfl
  obtain ⟨elements, hfold, hlist⟩ := Store.foldl_apply_queue (performed key ⟨s, .none⟩ first)
    (.ofList ((List.range length).map UInt64.ofNat)) 0
  rw [Nat.zero_add] at hfold
  rw [Fifo.toList_ofList] at hlist
  rw [QueueAccounted, Store.prefilled, hfold]
  exact ⟨rfl, hlist⟩

/-- A queue under the lock, at the outset. -/
def onQueue (length : Nat) : Ledger :=
  ⟨.start (.payload (.queue (.writerFirst .fresh) length)), .none⟩

theorem onQueue_fresh (length : Nat) : (onQueue length).session.Fresh 0
    (.payload ⟨.writerFirst .fresh, .prefilled length⟩) :=
  Session.start_fresh rfl

/-- A read is refused its upgrade because of a reader outside, and falls back to
the write lock; a write that begins later ends later. -/
def fallBack : List Turn :=
  [⟨9, 0, .waiting (.acquire .read)⟩, ⟨1, 0, .read ""⟩, ⟨2, 0, .write "" 7⟩, ⟨3, 0, .read ""⟩,
    ⟨9, 0, .instant (.unlock .read)⟩, ⟨2, 0, .resume 3⟩, ⟨1, 0, .resume 1⟩, ⟨2, 0, .resume 1⟩,
    ⟨3, 0, .resume 1⟩]

/-- Nothing but accesses: the second read finds the queue empty. -/
def plainly : List Turn :=
  [⟨1, 0, .write "" 7⟩, ⟨2, 0, .read ""⟩, ⟨3, 0, .read ""⟩]

theorem payload_linearizable_fallBack :
    (∃ reached, MatchesMutex 0 (after 0 (onQueue 1) fallBack) (.prefilled 1)
        (performed 0 (onQueue 1) fallBack) reached ∧
      QueueAccounted 1 (performed 0 (onQueue 1) fallBack) reached) ∧
      performed 0 (onQueue 1) fallBack = [.read, .write 7, .read] ∧
      EveryTurn 0 (Prompt 0) (onQueue 0) plainly := by
  have serves : EveryTurn 0 (Serves 0) (onQueue 1) fallBack := by decide +kernel
  have few : FewStopped 0 (onQueue 1) fallBack := by decide +kernel
  have serves' : EveryTurn 0 (Serves 0) (onQueue 0) plainly := by decide +kernel
  have few' : FewStopped 0 (onQueue 0) plainly := by decide +kernel
  refine ⟨?_, ?_, ?_⟩
  · obtain ⟨reached, hmatches, hqueue⟩ :=
      (payload_linearizable (onQueue_fresh 1) serves few).1 fallBack [] (List.append_nil _).symm
    exact ⟨reached, hmatches, hqueue 1 rfl⟩
  · decide +kernel
  · exact (payload_linearizable (onQueue_fresh 0) serves' few').2.2 (by decide +kernel)

end Ledger

end ReaderWriter
