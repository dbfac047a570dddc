import ReaderWriter.Proofs.Payload.Crew

/-!
# Rounds account for every access

A round reports how often its workers have read and written, and the payload logs what it
was left with. Neither depends on the schedule. The workers count for themselves, each of
them the same; the payload counts what it is asked for, in whatever order this happens.

A queue that is filled well enough at the outset never runs out, whoever comes first. And
as accesses are over when they are over, nobody is found in the lock in the end.
-/

namespace ReaderWriter

namespace Round

variable {plan : Plan} {threads : Nat} {moves : List Move} {scheme : Scheme}
variable {p : Payload} {t : Tally}

/-- A round comes to an end with a report on so many workers. There is no mean over none,
but the payload has been torn down when this is found out. -/
structure Closes (contender : String) (plan : Plan) (threads : Nat) (before : UInt16)
    (elapsed : Nat) (closing : List Record) (o : Outcome) : Prop where
  report : o.report =
    if threads = 0 then .error .noWorkers
    else .ok ⟨contender, threads, threads * plan.reads, threads * plan.writes, elapsed / threads⟩
  workers : o.workers.toNat = min threads 65535
  log : o.log = opening contender plan threads before ++ closing

/-- A payload is played in the order of some moves: no access to it waits, and the round
closes with the given records of its end. -/
structure Accounts (p : Payload) (plan : Plan) (threads : Nat) (moves : List Move)
    (before : UInt16) (elapsed : Nat) (closing : List Record) : Prop where
  prompt : ∀ first m rest, moves = first ++ m :: rest →
    ((p.play (first.map Move.access)).payload.access m.access).progress = .finished ()
  /-- The tally of the round is what the workers have counted by themselves. -/
  tally : (p.play (moves.map Move.access)).tally =
    Tally.total ((List.range threads).map fun w => Tally.of (own w moves))
  closes : Closes p.scheme.name plan threads before elapsed closing
    (close (p.play (moves.map Move.access)) plan threads before elapsed)

/-- What is accounted for in a round, whatever the order of its moves. -/
structure Complete (plan : Plan) (threads : Nat) (moves : List Move) (scheme : Scheme)
    (before : UInt16) (elapsed : Nat) : Prop where
  /-- Nothing that the workers do is left out of the report. -/
  operations : threads * plan.reads + threads * plan.writes = threads * plan.length
  /-- A list has a node for every write. -/
  list : Accounts (.list scheme) plan threads moves before elapsed
    (scheme.closing (.listFinished (threads * plan.writes)))
  /-- A queue has lost just what it has given to reads. -/
  queue : ∀ length, ∃ elements popped,
    Accounts (.queue scheme length) plan threads moves before elapsed
      (scheme.closing (.queueFinished elements popped)) ∧
    elements + popped = length + threads * plan.writes ∧ popped ≤ threads * plan.reads
  /-- A queue that is filled for all reads has something for each of them. -/
  filled : ∀ length, threads * plan.reads ≤ length →
    Accounts (.queue scheme length) plan threads moves before elapsed
      (scheme.closing (.queueFinished (length + threads * plan.writes - threads * plan.reads)
        (threads * plan.reads))) ∧
    ∀ first m rest, moves = first ++ m :: rest → m.access = .read →
      ((Payload.queue scheme length).play (first.map Move.access)).payload.store.toList ≠ []
  /-- It is filled so if nobody asks for another length. -/
  standard : threads * plan.reads ≤ plan.length * threads

/-- An idle payload that has been played leaves a round to be closed in good order. -/
theorem closes_of_idle (hp : p.Idle) (hfew : t = ⟨threads * plan.reads, threads * plan.writes⟩)
    (before : UInt16) (elapsed : Nat) :
    Closes p.scheme.name plan threads before elapsed
      (p.scheme.closing (Payload.closingRecord p.store))
      (close ⟨p, t⟩ plan threads before elapsed) := by
  subst hfew
  refine ⟨?_, Workers.toNat_ofThreads threads, ?_⟩
  · simp only [close, Payload.finish_idle hp]
  · simp only [close, Payload.finish_idle hp]

/-- Played by interleaved passes over a plan, an idle payload gives a round that closes. -/
theorem Interleaves.accounts (h : Interleaves plan threads moves) (hp : p.Idle) (before : UInt16)
    (elapsed : Nat) : Accounts p plan threads moves before elapsed
      (p.scheme.closing
        (Payload.closingRecord ((moves.map Move.access).foldl Store.apply p.store))) := by
  obtain ⟨m, hm, hplay⟩ := Payload.play_idle hp (moves.map Move.access)
  refine ⟨?_, ?_, ?_⟩
  · rintro first move rest -
    obtain ⟨m', hm', hfirst⟩ := Payload.play_idle hp (first.map Move.access)
    obtain ⟨-, -, hover, -⟩ := Payload.access_idle (p.following_idle _ hm') move.access
    rw [hfirst]
    exact hover
  · rw [hplay]
    exact h.tally_eq_total
  · have hcloses := closes_of_idle (p.following_idle (moves.map Move.access) hm) h.tally_eq before
      elapsed
    rw [hplay]
    simpa using hcloses

theorem idle_of_fresh (hfresh : ∀ l, scheme = .writerFirst l → l = .fresh) (store : Store) :
    Payload.Idle ⟨scheme, store⟩ := by
  intro l hl
  cases scheme with
  | writerFirst l' =>
      cases hl
      rw [hfresh l rfl]
      exact Lock.fresh_balanced
  | _ => cases hl

/-- A schedule that has not come to its end yet has reads to come. -/
theorem Interleaves.reads_lt (h : Interleaves plan threads moves) {first rest : List Move}
    {m : Move} (hmoves : moves = first ++ m :: rest) (hread : m.access = .read) :
    (first.map Move.access).countP Access.isRead < threads * plan.reads := by
  rw [← h.countP_isRead, hmoves, List.map_append, List.countP_append, List.map_cons, hread,
    List.countP_cons]
  simp

namespace Interleaves

variable (h : Interleaves plan threads moves)
include h

theorem closing_list :
    Payload.closingRecord ((moves.map Move.access).foldl Store.apply (.list [])) =
      .listFinished (threads * plan.writes) := by
  rw [Store.foldl_apply_list, Payload.closingRecord, List.append_nil, List.length_reverse,
    Access.length_written, h.countP_isWrite]

theorem closing_queue (length : Nat) : ∃ elements popped,
    Payload.closingRecord ((moves.map Move.access).foldl Store.apply (.prefilled length)) =
        .queueFinished elements popped ∧
      elements + popped = length + threads * plan.writes ∧ popped ≤ threads * plan.reads := by
  obtain ⟨elements, taken, hfold, hlength, htaken⟩ :=
    Store.foldl_apply_conserves (moves.map Move.access)
      (.ofList ((List.range length).map UInt64.ofNat)) 0
  rw [Fifo.toList_ofList, List.length_map, List.length_range, h.countP_isWrite] at hlength
  rw [h.countP_isRead] at htaken
  refine ⟨elements.toList.length, taken, ?_, hlength, htaken⟩
  rw [Store.prefilled, hfold, Nat.zero_add]
  rfl

theorem closing_filled {length : Nat} (hfilled : threads * plan.reads ≤ length) :
    Payload.closingRecord ((moves.map Move.access).foldl Store.apply (.prefilled length)) =
      .queueFinished (length + threads * plan.writes - threads * plan.reads)
        (threads * plan.reads) := by
  rw [← h.countP_isRead] at hfilled
  obtain ⟨elements, hfold, hlength⟩ := Store.foldl_apply_prefilled hfilled
  rw [h.countP_isRead, h.countP_isWrite] at hlength
  rw [hfold, h.countP_isRead, ← hlength]
  rfl

theorem complete (hfresh : ∀ l, scheme = .writerFirst l → l = .fresh) (before : UInt16)
    (elapsed : Nat) : Complete plan threads moves scheme before elapsed where
  operations := by rw [← Nat.mul_add, plan.reads_add_writes]
  list := by
    rw [← h.closing_list]
    exact h.accounts (p := .list scheme) (idle_of_fresh hfresh _) before elapsed
  queue := by
    intro length
    obtain ⟨elements, popped, hclosing, hconserved⟩ := h.closing_queue length
    refine ⟨elements, popped, ?_, hconserved⟩
    rw [← hclosing]
    exact h.accounts (p := .queue scheme length) (idle_of_fresh hfresh _) before elapsed
  filled := by
    intro length hfilled
    refine ⟨?_, ?_⟩
    · rw [← h.closing_filled hfilled]
      exact h.accounts (p := .queue scheme length) (idle_of_fresh hfresh _) before elapsed
    · intro first m rest hmoves hread
      have hlt := Nat.lt_of_lt_of_le (h.reads_lt hmoves hread) hfilled
      have hidle : (Payload.queue scheme length).Idle := idle_of_fresh hfresh _
      obtain ⟨l, -, hplay⟩ := Payload.play_idle hidle (first.map Move.access)
      rw [hplay, Payload.store_following]
      exact Store.foldl_apply_prefilled_ne_nil hlt
  standard := by
    rw [Nat.mul_comm plan.length]
    exact Nat.mul_le_mul_left threads (Nat.sub_le _ _)

end Interleaves

/-! ## Workers that stop -/

/-- What a crew has left in the end, when a round is closed on it. -/
structure Concludes (plan : Plan) (threads key : Nat) (s : Session) (store : Store)
    (script : List Turn) (before : UInt16) (elapsed : Nat) : Prop where
  schedule : Interleaves plan threads (Ledger.moves key ⟨s, .none⟩ script)
  list : store = .list [] → ∃ q, (s.after script).objects.get? key = some (.payload q) ∧
    Closes "c-rw-wp" plan threads before elapsed
      [.lockDestroyed, .listFinished (threads * plan.writes)]
      (close ⟨q, Tally.of (Ledger.performed key ⟨s, .none⟩ script)⟩ plan threads before elapsed)
  filled : ∀ length, store = .prefilled length → threads * plan.reads ≤ length →
    (∃ q, (s.after script).objects.get? key = some (.payload q) ∧
      Closes "c-rw-wp" plan threads before elapsed
        [.lockDestroyed, .queueFinished (length + threads * plan.writes - threads * plan.reads)
          (threads * plan.reads)]
        (close ⟨q, Tally.of (Ledger.performed key ⟨s, .none⟩ script)⟩ plan threads before
          elapsed)) ∧
    ∀ first rest, script = first ++ rest →
      (Ledger.performed key ⟨s, .none⟩ first).countP Access.isRead < threads * plan.reads →
        ∃ q, (s.after first).objects.get? key = some (.payload q) ∧ q.store.toList ≠ []

variable {key : Nat} {s : Session} {store : Store} {script : List Turn}

/-- The round of a crew closes, and the records of its end tell what the accesses of its
schedule have made of the store. -/
theorem closes_of_crew (h : Ledger.Crew plan threads key s store script) (before : UInt16)
    (elapsed : Nat) :
    Interleaves plan threads (Ledger.moves key ⟨s, .none⟩ script) ∧
      ∃ q, (s.after script).objects.get? key = some (.payload q) ∧
        Closes "c-rw-wp" plan threads before elapsed
          [.lockDestroyed, Payload.closingRecord
            (((Ledger.moves key ⟨s, .none⟩ script).map Move.access).foldl Store.apply store)]
          (close ⟨q, Tally.of (Ledger.performed key ⟨s, .none⟩ script)⟩ plan threads before
            elapsed) := by
  obtain ⟨hschedule, m, hm, hobject⟩ := h.interleaves
  have hidle : Payload.Idle ⟨.writerFirst m,
      ((Ledger.moves key ⟨s, .none⟩ script).map Move.access).foldl Store.apply store⟩ := by
    intro l hl
    cases hl
    exact hm
  have htally := hschedule.tally_eq
  rw [Ledger.map_access_moves] at htally
  rw [Ledger.session_after] at hobject
  exact ⟨hschedule, _, hobject, closes_of_idle hidle htally before elapsed⟩

theorem concludes_of_crew (h : Ledger.Crew plan threads key s store script) (before : UInt16)
    (elapsed : Nat) : Concludes plan threads key s store script before elapsed := by
  obtain ⟨hschedule, q, hobject, hcloses⟩ := closes_of_crew h before elapsed
  refine ⟨hschedule, ?_, ?_⟩
  · rintro rfl
    rw [← hschedule.closing_list]
    exact ⟨q, hobject, hcloses⟩
  · rintro length rfl hfilled
    refine ⟨?_, ?_⟩
    · rw [← hschedule.closing_filled hfilled]
      exact ⟨q, hobject, hcloses⟩
    · rintro first rest rfl hfew
      obtain ⟨m', hobject'⟩ := h.store_after
      rw [Ledger.session_after] at hobject'
      exact ⟨_, hobject',
        Store.foldl_apply_prefilled_ne_nil (Nat.lt_of_lt_of_le hfew hfilled)⟩

/-- Whatever the order in which the workers of a round get to a payload that nobody has
used yet, every access is accounted for; their turns may come one after another. Nor does it
matter if they are held up in the middle of their accesses. -/
theorem every_schedule_complete (plan : Plan) (threads : Nat) (before : UInt16) (elapsed : Nat) :
    (∃ moves, Interleaves plan threads moves ∧ moves.map Move.access = inTurn plan threads) ∧
    (∀ moves, Interleaves plan threads moves →
      ∀ scheme : Scheme, (∀ l, scheme = .writerFirst l → l = .fresh) →
        Complete plan threads moves scheme before elapsed) ∧
    ∀ key s store script, Ledger.Crew plan threads key s store script →
      Concludes plan threads key s store script before elapsed :=
  ⟨exists_interleaves_inTurn plan threads, fun _ h _ hfresh => h.complete hfresh before elapsed,
    fun _ _ _ _ h => concludes_of_crew h before elapsed⟩

/-- A plan that reads and then writes. -/
def readAndWrite : Plan := ⟨[.read, .write]⟩

/-- The second of two workers gets between the accesses of the first. -/
def turnAbout : List Move :=
  [⟨0, .read⟩, ⟨1, .read⟩, ⟨1, .write 1⟩, ⟨0, .write 1⟩]

/-- A reader from outside refuses the first worker its upgrade, and the second finds the
first in its drain. -/
def held : List Turn :=
  [⟨9, 0, .waiting (.acquire .read)⟩, ⟨0, 0, .read ""⟩, ⟨1, 0, .read ""⟩,
    ⟨9, 0, .instant (.unlock .read)⟩, ⟨1, 0, .resume 3⟩, ⟨0, 0, .resume 1⟩, ⟨1, 0, .resume 1⟩,
    ⟨1, 0, .write "" 1⟩, ⟨0, 0, .write "" 1⟩]

theorem every_schedule_complete_readAndWrite :
    Complete readAndWrite 2 turnAbout (.writerFirst .fresh) 128 7 ∧
      Concludes readAndWrite 2 0 (.start (.payload (.queue (.writerFirst .fresh) 2)))
        (.prefilled 2) held 128 7 := by
  have interleaves : Interleaves readAndWrite 2 turnAbout := ⟨by decide, by decide⟩
  have crew : Ledger.Crew readAndWrite 2 0 (.start (.payload (.queue (.writerFirst .fresh) 2)))
      (.prefilled 2) held := by
    refine ⟨Session.start_fresh rfl, ?_, ?_, ?_, ?_, ?_, ?_⟩
    · decide +kernel
    · decide +kernel
    · decide +kernel
    · decide +kernel
    · intro actor c hget
      have hnobody : (Ledger.after 0 ⟨.start (.payload (.queue (.writerFirst .fresh) 2)), .none⟩
          held).session.stopped.entries = [] := List.isEmpty_iff.mp (by decide +kernel)
      rw [Registry.get?, hnobody] at hget
      cases hget
    · decide +kernel
  obtain ⟨-, complete, concludes⟩ := every_schedule_complete readAndWrite 2 128 7
  exact ⟨complete turnAbout interleaves _ (by simp), concludes _ _ _ _ crew⟩

end Round

end ReaderWriter
