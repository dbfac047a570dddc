import ReaderWriter.Payload.Design
import ReaderWriter.Workers

/-!
# Rounds

In a round a number of workers walk through the same plan on one payload, and
the round reports how much was read and written. A round is opened, which sets
the expected number of workers; its accesses are played in the order of some
schedule; and it is closed, which tears the payload down and draws up the
report.

Any schedule that keeps each worker's accesses in order is one of the ways the
round can go. The one used here lets the workers take their turns one after
another.
-/

namespace ReaderWriter

/-- The accesses of a worker that walks through the plan. -/
def Plan.accesses (p : Plan) : List Access :=
  p.decisions.mapIdx Payload.accessOf

/-- How many reads and writes were made. -/
structure Tally where
  reads : Nat
  writes : Nat
deriving DecidableEq

/-- One more access. -/
def Tally.count (t : Tally) : Access → Tally
  | .read => { t with reads := t.reads + 1 }
  | .write _ => { t with writes := t.writes + 1 }

/-- A payload in the middle of a round, and what the workers have counted. -/
structure Played where
  payload : Payload
  tally : Tally
deriving DecidableEq

/-- An access by a worker while nobody else works on the payload: it is counted
and runs to its end. -/
def Played.perform (p : Played) (a : Access) : Played :=
  ⟨(p.payload.access a).state, p.tally.count a⟩

/-- Plays a schedule of accesses, each over before the next begins. -/
def Payload.play (p : Payload) (schedule : List Access) : Played :=
  schedule.foldl Played.perform ⟨p, ⟨0, 0⟩⟩

/-- What a round found out. -/
structure Report where
  contender : String
  threads : Nat
  reads : Nat
  writes : Nat
  /-- Mean time of a worker, in microseconds. -/
  micros : Nat
deriving DecidableEq

namespace Round

/-- Why a round has no report. -/
inductive Fault where
  /-- The plan or the payload does not fit into memory. -/
  | exceeded
  /-- The payload was still held when it was torn down. -/
  | held (breach : Violation)
  /-- There is no mean over no workers. -/
  | noWorkers
deriving DecidableEq

/-- The text that reports a faulty round. -/
def Fault.message : Fault → String
  | .exceeded => Capacity.message
  | .held breach => breach.message
  | .noWorkers => "attempt to divide by zero"

/-- How a round went, the number of workers expected from then on, and its log. -/
structure Outcome where
  report : Except Fault Report
  workers : UInt16
  log : List Record

/-- The schedule that lets the workers take their turns one after another. -/
def inTurn (plan : Plan) (threads : Nat) : List Access :=
  (List.replicate threads plan.accesses).flatten

/-- The records a round opens with. -/
def opening (contender : String) (plan : Plan) (threads : Nat) (before : UInt16) : List Record :=
  [(Workers.expect before (Workers.ofThreads threads)).2,
   .roundStarted contender threads plan.length]

/-- Closes a round that has been played, `elapsed` being the microseconds that
all workers took together. The payload is torn down before the report is drawn
up. -/
def close (played : Played) (plan : Plan) (threads : Nat) (before : UInt16) (elapsed : Nat) :
    Outcome :=
  let contender := played.payload.scheme.name
  let ending := played.payload.finish
  let report : Except Fault Report :=
    match ending.progress with
    | .violated breach => .error (.held breach)
    | .finished () =>
      if threads = 0 then .error .noWorkers
      else .ok ⟨contender, threads, played.tally.reads, played.tally.writes, elapsed / threads⟩
  ⟨report, (Workers.expect before (Workers.ofThreads threads)).1,
    opening contender plan threads before ++ ending.log⟩

/-- A round under a schedule. -/
def run (p : Payload) (plan : Plan) (threads : Nat) (before : UInt16) (schedule : List Access) :
    Outcome :=
  close (p.play schedule) plan threads before 0

/-- A round in turns, from what its plan and its payload are made from. If one
of them cannot be held the round does not begin. -/
def ask (design : Payload.Design) (request : Plan.Request) (threads : Nat) (before : UInt16) :
    Outcome :=
  match request.draw? with
  | none => ⟨.error .exceeded, before, []⟩
  | some plan =>
    match design.build? with
    | none => ⟨.error .exceeded, before, []⟩
    | some p => run p plan threads before (inTurn plan threads)

end Round

end ReaderWriter
