import ReaderWriter.Proofs.Bench.Course
import ReaderWriter.Proofs.CommandLine.Reading

/-!
# Runs report consistently

The program compares one product before it does anything: the operations of all threads
together must have numbers. If they have, nothing that is counted afterwards is out of range,
since neither a worker nor any number of workers together count more than that; and if they
have not, there is an error and nothing else.

A run that is not refused prints the sections that were asked for, however the accesses of its
rounds are interleaved. All rows have the same numbers, which are those of the logged plan, taken
once for every thread, and they can be read from the rows however much room they take.
-/

namespace ReaderWriter.Bench

open CommandLine

variable {m : Type → Type} [Monad m]

/-- The queues of a run can be held: an element has eight bytes. -/
def Held (s : Settings) : Prop :=
  s.workload ≠ .list → s.ops * s.threads * 8 < UInt64.size / 2

instance (s : Settings) : Decidable (Held s) :=
  inferInstanceAs (Decidable (_ → _))

/-- The products and sums of a run are within eight bytes. -/
structure Numbered (s : Settings) (plan : Plan) : Prop where
  /-- The length of a queue at the outset. -/
  elements : plan.length * s.threads < UInt64.size
  /-- What a worker has counted on the way through the plan. -/
  counted : ∀ first rest, plan.accesses = first ++ rest →
    (Tally.of first).reads < UInt64.size ∧ (Tally.of first).writes < UInt64.size
  /-- What some of the workers have counted together. -/
  summed : ∀ workers ≤ s.threads,
    (Tally.total (List.replicate workers (Tally.of plan.accesses))).reads < UInt64.size ∧
      (Tally.total (List.replicate workers (Tally.of plan.accesses))).writes < UInt64.size

/-- A section has a header of three lines, and a row for every contender. -/
def Section (s : Settings) (plan : Plan) (title : String) (contenders lines : List String) : Prop :=
  ∃ rows, lines = ["", "=== " ++ title ++ " ===",
      "           |    threads |      reads |     writes |    seconds "] ++ rows ∧
    Rows plan s.threads contenders rows

/-- How the log tells of a plan. -/
def planLine (reads writes ratio : Nat) : String :=
  s!"plan: {reads} reads, {writes} writes per thread ({ratio}% writes requested)"

/-- What a run on a plan has come to: everything went well, and the sections that were asked
for are printed. -/
structure Reported (s : Settings) (plan : Plan) (hardwareThreads : Nat) (t : Transcript) :
    Prop where
  exit : t.exit = 0
  complaint : t.complaint = none
  lines : ∃ list queue, t.lines = list ++ queue ∧
    (if s.workload = .queue then list = []
      else Section s plan "list" ["mutex", "rwlock", "c-rw-wp"] list) ∧
    if s.workload = .list then queue = []
      else Section s plan "queue" ["mutex", "rwlock", "c-rw-wp", "lfqueue"] queue
  /-- The log begins with the plan and has no other. -/
  log : ∃ records, Undrawn records ∧
    t.log = .planDrawn plan.reads plan.writes s.writePercent :: .machine 500 hardwareThreads ::
      records
  wording : t.log.head?.map Record.text =
    some (planLine plan.reads plan.writes s.writePercent)
  operations : s.threads * plan.reads + s.threads * plan.writes = s.threads * s.ops

/-- The workers never wait on a payload, in whatever order they get to it: every access is over
before the next begins. -/
def Unhindered (plan : Plan) (threads : Nat) (p : Payload) : Prop :=
  ∀ moves, Round.Interleaves plan threads moves → ∀ first move rest,
    moves = first ++ move :: rest →
      ((p.play (first.map Round.Move.access)).payload.access move.access).progress = .finished ()

/-- The program under settings that it has read. -/
structure Consistent (arena : Arena m) (hardwareThreads : Nat) (arguments : List String)
    (s : Settings) : Prop where
  program : ∀ chance, execute arena hardwareThreads chance arguments =
    run arena hardwareThreads s fun _ => (request s chance).draw?
  drawn : s.ops < UInt64.size / 2 → ∀ chance, ∃ plan,
    (request s chance).draw? = some plan ∧ plan.length = s.ops
  refused : UInt64.size ≤ s.ops * s.threads → ∀ draw, run arena hardwareThreads s draw =
    pure ⟨1, [], [], some s!"Error: {s.ops} ops x {s.threads} threads does not fit in memory"⟩
  prompt : ∀ plan, ∀ p ∈ sections s.workload (s.ops * s.threads), ∀ design ∈ p.2,
    Unhindered plan s.threads design.payload
  /-- The transcript depends on the plan that was drawn and on what the rounds have come to, and
  is in order whatever the workers may have made of them. -/
  reported : s.ops * s.threads < UInt64.size → Held s → ∀ draw plan, draw () = some plan →
    plan.length = s.ops → Numbered s plan ∧
      ∃ transcript : List (List (Played × Nat)) → Transcript,
        run arena hardwareThreads s draw = transcript <$>
          ((sections s.workload (s.ops * s.threads)).mapM fun p =>
            p.2.mapM fun design => arena design.payload plan s.threads) ∧
        ∀ outcomes, List.Forall₂ (fun p os => Outcomes plan s.threads p.2 os)
          (sections s.workload (s.ops * s.threads)) outcomes →
            Reported s plan hardwareThreads (transcript outcomes)

variable {arena : Arena m} {s : Settings} {plan : Plan}
variable {hardwareThreads : Nat} {arguments : List String}

theorem header_eq (title : String) : Table.header title = ["", "=== " ++ title ++ " ===",
    "           |    threads |      reads |     writes |    seconds "] := by
  have hcolumns : Table.row ["", "threads", "reads", "writes", "seconds"] =
      "           |    threads |      reads |     writes |    seconds " := by
    decide +kernel
  rw [Table.header, hcolumns]
  rfl

theorem section_of_rows {title : String} {contenders rows : List String}
    (h : Rows plan s.threads contenders rows) :
    Section s plan title contenders (Table.header title ++ rows) :=
  ⟨rows, by rw [header_eq], h⟩

/-- What has been counted on the way is not more than what is counted in the end. -/
theorem tally_first_le {first rest : List Access} (h : plan.accesses = first ++ rest) :
    (Tally.of first).reads ≤ plan.reads ∧ (Tally.of first).writes ≤ plan.writes := by
  have hall := plan.tally_accesses
  rw [h, Tally.of_eq, List.countP_append, List.countP_append, Tally.mk.injEq] at hall
  rw [Tally.of_eq]
  dsimp only
  omega

theorem numbered_of_lt (hthreads : s.threads ≠ 0) (hfew : s.ops * s.threads < UInt64.size)
    (hlength : plan.length = s.ops) : Numbered s plan := by
  have hops : s.ops ≤ s.ops * s.threads := Nat.le_mul_of_pos_right _ (Nat.pos_of_ne_zero hthreads)
  have hplan := plan.reads_add_writes
  constructor
  · rwa [hlength]
  · intro first rest h
    obtain ⟨hreads, hwrites⟩ := tally_first_le h
    omega
  · intro workers hworkers
    have hle : ∀ n ≤ s.ops, workers * n ≤ s.ops * s.threads := by
      intro n hn
      rw [Nat.mul_comm s.ops]
      exact Nat.mul_le_mul hworkers hn
    rw [Tally.total_replicate, Plan.tally_accesses]
    have hreads : plan.reads ≤ s.ops := by omega
    have hwrites : plan.writes ≤ s.ops := by omega
    exact ⟨Nat.lt_of_le_of_lt (hle _ hreads) hfew, Nat.lt_of_le_of_lt (hle _ hwrites) hfew⟩

theorem fresh_of_mem (workload : Workload) (length : Nat) :
    ∀ p ∈ sections workload length, ∀ design ∈ p.2, ∀ l,
      design.scheme = .writerFirst l → l = .fresh := by
  cases workload <;> simp [sections, lists, queues, Payload.Design.scheme]

theorem fits_of_held (h : Held s) :
    ∀ p ∈ sections s.workload (s.ops * s.threads), ∀ design ∈ p.2, design.fits = true := by
  have hholds : s.workload ≠ .list → Capacity.holds (s.ops * s.threads) 8 = true :=
    fun hqueue => (Capacity.holds_iff _ _).mpr (h hqueue)
  cases hw : s.workload <;> rw [hw] at hholds <;>
    simp [sections, lists, queues, Payload.Design.fits, Payload.Design.width, hholds]

theorem ready_of_held (h : Held s) :
    ∀ p ∈ sections s.workload (s.ops * s.threads), ∀ design ∈ p.2, Ready design :=
  fun p hp design hdesign =>
    ⟨fits_of_held h p hp design hdesign, fresh_of_mem _ _ p hp design hdesign⟩

theorem reported_of_gains {p : Course} {lines : List String}
    (h : (Course.start (opening s plan hardwareThreads)).Gains p lines)
    (hlines : Sections plan s.threads (sections s.workload (s.ops * s.threads)) lines)
    (hlength : plan.length = s.ops) : Reported s plan hardwareThreads p.transcript := by
  obtain ⟨records, hlog, hundrawn⟩ := h.log
  have htranscript : p.transcript =
      ⟨0, lines, opening s plan hardwareThreads ++ records, none⟩ := by
    rw [Course.transcript, h.fault, h.lines, hlog]
    rfl
  rw [htranscript]
  refine ⟨rfl, rfl, ?_, ⟨records, hundrawn, rfl⟩, rfl, ?_⟩
  · cases hw : s.workload with
    | list =>
        rw [hw] at hlines
        obtain ⟨rows, _, rfl, hrows, rfl⟩ := hlines
        exact ⟨_, [], rfl, section_of_rows hrows, rfl⟩
    | queue =>
        rw [hw] at hlines
        obtain ⟨rows, _, rfl, hrows, rfl⟩ := hlines
        rw [List.append_nil]
        exact ⟨[], _, rfl, rfl, section_of_rows hrows⟩
    | all =>
        rw [hw] at hlines
        obtain ⟨rows, _, rfl, hrows, rows', _, rfl, hrows', rfl⟩ := hlines
        rw [List.append_nil]
        exact ⟨_, _, rfl, section_of_rows hrows, section_of_rows hrows'⟩
  · rw [← Nat.mul_add, plan.reads_add_writes, hlength]

/-- Whatever the arguments, if the command line accepts them the program reports consistently,
or is refused before it has done anything. -/
theorem program_consistent [LawfulMonad m] (hfair : arena.Fair)
    (haccepted : parse arguments = .ok s) (hardwareThreads : Nat) :
    Consistent arena hardwareThreads arguments s := by
  have hthreads : s.threads ≠ 0 := by
    have hrange := (parse_inRange haccepted).threads.1
    omega
  constructor
  · intro chance
    rw [execute, haccepted]
  · intro hfew chance
    have hholds : Capacity.holds s.ops 1 = true := by
      rw [Capacity.holds_iff]
      omega
    exact ⟨_, if_pos hholds, Plan.length_generate _ _ _⟩
  · intro hlarge draw
    rw [run, accessBound, if_pos hlarge]
    rfl
  · intro plan p hp design hdesign moves schedule
    have hidle : design.payload.Idle := idle_payload (fresh_of_mem _ _ p hp design hdesign)
    exact (schedule.accounts hidle 0 0).prompt
  · intro hfew hheld draw plan hdraw hlength
    refine ⟨numbered_of_lt hthreads hfew hlength, ?_⟩
    have hready := ready_of_held hheld
    refine ⟨fun outcomes => (((sections s.workload (s.ops * s.threads)).zip outcomes).foldl
      (Course.playSection plan s.threads) (.start (opening s plan hardwareThreads))).transcript,
      ?_, fun outcomes ho => ?_⟩
    · rw [run, accessBound, if_neg (Nat.not_le_of_lt hfew), hdraw]
      dsimp only
      rw [hlength, playSections_eq plan hfair hthreads hready rfl]
      simp only [bind_pure_comp, Functor.map_map]
    · obtain ⟨lines, hlines, hgains⟩ := gains_sections hthreads hready ho
        (p := .start (opening s plan hardwareThreads)) rfl
      exact reported_of_gains hgains hlines hlength

/-- Half of all numbers are too many operations for two threads. Three are not, and a run of
them in turns reports. -/
theorem program_consistent_untimed :
    execute untimed 8 0 ["2", "9223372036854775808", "30"] =
        ⟨1, [], [], some "Error: 9223372036854775808 ops x 2 threads does not fit in memory"⟩ ∧
      ∃ plan, plan.length = 3 ∧ Numbered ⟨2, 3, 50, .all, some 7⟩ plan ∧
        Reported ⟨2, 3, 50, .all, some 7⟩ plan 8
          (execute untimed 8 0 ["2", "3", "50", "--seed=7"]) := by
  constructor
  · have hparse : parse ["2", "9223372036854775808", "30"] =
        .ok ⟨2, 9223372036854775808, 30, .all, none⟩ := by decide +kernel
    have hlarge := program_consistent untimed_fair hparse 8
    rw [hlarge.program]
    exact hlarge.refused (by decide) _
  · have hparse : parse ["2", "3", "50", "--seed=7"] = .ok ⟨2, 3, 50, .all, some 7⟩ := by
      decide +kernel
    have hsmall := program_consistent untimed_fair hparse 8
    obtain ⟨plan, hdraw, hlength⟩ := hsmall.drawn (by decide) 0
    obtain ⟨hnumbered, transcript, hrun, hreported⟩ :=
      hsmall.reported (by decide) (by decide) (fun _ => _) plan hdraw hlength
    obtain ⟨outcomes, houtcomes⟩ := yields_mapM (l := sections .all (3 * 2)) fun p _ =>
      yields_mapM (l := p.2) fun design _ => untimed_fair design.payload plan 2
    refine ⟨plan, hlength, hnumbered, ?_⟩
    rw [hsmall.program, hrun, houtcomes]
    exact hreported outcomes.1 outcomes.2

end ReaderWriter.Bench
