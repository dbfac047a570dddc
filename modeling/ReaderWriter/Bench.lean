import ReaderWriter.CommandLine.Arguments
import ReaderWriter.Patience
import ReaderWriter.Table

/-!
# The benchmark

A run of the benchmark has a section for lists and one for queues, as the
settings ask, and in each section a round for every contender. All rounds walk
through one plan. What is printed and what is logged is collected in a
transcript; if the accesses of all workers together cannot be numbered, or the
plan cannot be held, the run ends before anything is done.

Rounds are played in an arena, which may look at a clock and decides who gets to
the payload when.
-/

namespace ReaderWriter.Bench

open CommandLine

/-- What a run prints, logs and ends with. -/
structure Transcript where
  exit : Nat
  /-- The lines on the standard output. -/
  lines : List String
  log : List Record
  /-- The text that reports why the run failed. -/
  complaint : Option String

/-- The accesses of all workers together must be fewer than this. -/
def accessBound : Nat := UInt64.size

/-- The contenders on a list. -/
def lists : List Payload.Design :=
  [.list .mutex, .list .rwlock, .list (.writerFirst .fresh)]

/-- The contenders on a queue that holds `length` elements at the outset. -/
def queues (length : Nat) : List Payload.Design :=
  [.queue .mutex length, .queue .rwlock length, .queue (.writerFirst .fresh) length,
   .queue .lockFree length]

/-- The sections of a run, by their titles. -/
def sections (workload : Workload) (length : Nat) :
    List (String × List Payload.Design) :=
  match workload with
  | .list => [("list", lists)]
  | .queue => [("queue", queues length)]
  | .all => [("list", lists), ("queue", queues length)]

/-- A place where so many workers go through a plan on a payload. What they leave and
have counted comes out, and how many microseconds they took together. -/
abbrev Arena (m : Type → Type) := Payload → Plan → Nat → m (Played × Nat)

/-- The arena in which the workers take their turns one after another and no time
passes. -/
def untimed : Arena Id := fun payload plan threads =>
  (payload.play (Round.inTurn plan threads), 0)

/-- What the rounds so far have printed and logged, and the number of workers
expected after them; or why they ended. -/
structure Course where
  lines : List String
  log : List Record
  workers : UInt16
  fault? : Option Round.Fault

namespace Course

/-- Adds a line of output. -/
def print (p : Course) (lines : List String) : Course :=
  { p with lines := p.lines ++ lines }

/-- Ends the course. -/
def fail (p : Course) (fault : Round.Fault) : Course :=
  { p with fault? := some fault }

/-- Adds a round. -/
def add (p : Course) (o : Round.Outcome) : Course :=
  match o.report with
  | .ok r => ⟨p.lines ++ [Table.ofReport r], p.log ++ o.log, o.workers, none⟩
  | .error fault => ⟨p.lines, p.log ++ o.log, o.workers, some fault⟩

end Course

variable {m : Type → Type} [Monad m]

/-- Plays a round for each contender, unless one of them fails. -/
def playRounds (arena : Arena m) (plan : Plan) (threads : Nat) :
    List Payload.Design → Course → m Course
  | [], p => pure p
  | design :: rest, p => do
    if p.fault?.isSome then return p
    match design.build? with
    | none => return p.fail .exceeded
    | some payload =>
      let (played, elapsed) ← arena payload plan threads
      playRounds arena plan threads rest
        (p.add (Round.close played plan threads p.workers elapsed))

/-- Plays the sections one after another, each under its header. -/
def playSections (arena : Arena m) (plan : Plan) (threads : Nat) :
    List (String × List Payload.Design) → Course → m Course
  | [], p => pure p
  | (title, payloads) :: rest, p => do
    if p.fault?.isSome then return p
    let p ← playRounds arena plan threads payloads (p.print (Table.header title))
    playSections arena plan threads rest p

/-- The records that a run opens with. -/
def opening (s : Settings) (plan : Plan) (hardwareThreads : Nat) : List Record :=
  [.planDrawn plan.reads plan.writes s.writePercent, .machine Patience.limit hardwareThreads]

/-- The course before the first round. -/
def Course.start (log : List Record) : Course :=
  ⟨[], log, Workers.standard, none⟩

/-- The transcript of a course that is over. -/
def Course.transcript (p : Course) : Transcript :=
  match p.fault? with
  | none => ⟨0, p.lines, p.log, none⟩
  | some fault => ⟨101, p.lines, p.log, some fault.message⟩

/-- The text that reports a run too large to be numbered. -/
def tooLarge (s : Settings) : String :=
  s!"Error: {s.ops} ops x {s.threads} threads does not fit in memory"

/-- A run under settings. The plan is drawn only if the run is not too large;
there is none if it cannot be held. -/
def run (arena : Arena m) (hardwareThreads : Nat) (s : Settings) (draw : Unit → Option Plan) :
    m Transcript :=
  if accessBound ≤ s.ops * s.threads then pure ⟨1, [], [], some (tooLarge s)⟩
  else
    match draw () with
    | none => pure ((Course.start []).fail .exceeded).transcript
    | some plan => do
      let p ← playSections arena plan s.threads (sections s.workload (plan.length * s.threads))
        (.start (opening s plan hardwareThreads))
      return p.transcript

/-- The plan that settings ask for, `chance` taking the place of a seed that
was not set. -/
def request (s : Settings) (chance : UInt64) : Plan.Request :=
  ⟨s.ops, UInt8.ofNat s.writePercent, (s.seed?.map UInt64.ofNat).getD chance⟩

/-- The whole program on its arguments. -/
def execute (arena : Arena m) (hardwareThreads : Nat) (chance : UInt64) (arguments : List String) :
    m Transcript :=
  match parse arguments with
  | .ok s => run arena hardwareThreads s fun _ => (request s chance).draw?
  | .error .help => pure ⟨0, helpLines, [], none⟩
  | .error .version => pure ⟨0, [versionLine], [], none⟩
  | .error (.fault fault) => pure ⟨2, [], [], some ("error: " ++ fault.message)⟩

end ReaderWriter.Bench
