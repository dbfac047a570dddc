/-!
# Log records

Everything the lock and the benchmark report on the way is a record: a fact
with its numbers. The level, the origin and the wording of a record are
functions of it, so two runs have the same log exactly when they have the same
records.
-/

namespace ReaderWriter

/-- How much a record matters. -/
inductive Level where
  | error | warn | info | debug | trace
deriving DecidableEq

namespace Level

/-- The word that names a level in the log. -/
def name : Level → String
  | .error => "ERROR"
  | .warn => "WARN"
  | .info => "INFO"
  | .debug => "DEBUG"
  | .trace => "TRACE"

/-- The place of a level in the order from grave to chatty. -/
def rank : Level → Nat
  | .error => 1
  | .warn => 2
  | .info => 3
  | .debug => 4
  | .trace => 5

end Level

/-- A fact worth logging. -/
inductive Record where
  /-- A reader gave up waiting quietly and raises the barrier. -/
  | outOfPatience (spins : UInt32)
  /-- A reader that had raised the barrier is in and has lowered it. -/
  | barrierLowered
  /-- A lock was torn down with nobody in it. -/
  | lockDestroyed
  /-- A list behind the lock was torn down. -/
  | listFinished (nodes : Nat)
  /-- A queue behind the lock was torn down. -/
  | queueFinished (elements pops : Nat)
  /-- The expected number of workers was set. -/
  | workersExpected (before now : UInt16)
  /-- A round is about to start. -/
  | roundStarted (contender : String) (threads operations : Nat)
  /-- A plan was drawn. -/
  | planDrawn (reads writes ratio : Nat)
  /-- The patience of readers, and the threads that the machine offers. -/
  | machine (patience : UInt32) (hardwareThreads : Nat)
deriving DecidableEq

namespace Record

/-- The level a record is logged at. -/
def level : Record → Level
  | .outOfPatience _ | .barrierLowered => .trace
  | .lockDestroyed | .listFinished _ | .queueFinished _ _ => .debug
  | .workersExpected _ _ | .roundStarted _ _ _ => .debug
  | .planDrawn _ _ _ | .machine _ _ => .info

/-- The part of the program that a record comes from, as log filters name it. -/
def origin : Record → String
  | .outOfPatience _ | .barrierLowered | .lockDestroyed => "crwwp::rw_lock"
  | .workersExpected _ _ => "crwwp::config"
  | .roundStarted _ _ _ => "crwwp_bench::round"
  | .listFinished _ => "crwwp_bench::list"
  | .queueFinished _ _ => "crwwp_bench::queue"
  | .planDrawn _ _ _ | .machine _ _ => "crwwp_bench"

/-- The wording of a record. -/
def text : Record → String
  | .outOfPatience spins =>
    s!"reader out of patience after {spins} spins, raising writer barrier"
  | .barrierLowered => "reader acquired, writer barrier lowered"
  | .lockDestroyed => "c-rw-wp lock destroyed"
  | .listFinished nodes => s!"c-rw-wp list finished with {nodes} nodes"
  | .queueFinished elements pops =>
    s!"c-rw-wp queue finished with {elements} elements after {pops} pops"
  | .workersExpected before now => s!"expected workers: {before} -> {now}"
  | .roundStarted contender threads operations =>
    s!"round {contender}: {threads} threads x {operations} ops"
  | .planDrawn reads writes ratio =>
    s!"plan: {reads} reads, {writes} writes per thread ({ratio}% writes requested)"
  | .machine patience hardwareThreads =>
    s!"reader patience {patience} spins, {hardwareThreads} hardware threads"

/-- A record as one line of a log. -/
def line (r : Record) : String :=
  s!"{r.level.name} {r.text}"

end Record

end ReaderWriter
