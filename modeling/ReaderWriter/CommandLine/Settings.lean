/-!
# Settings of the benchmark

A run of the benchmark is set by three numbers in fixed places, the workload,
and the seed of the plan. This module names the settings and the limits of the
numbers; reading them from arguments is the matter of
`ReaderWriter.CommandLine.Arguments`.
-/

namespace ReaderWriter.CommandLine

/-- Which payloads to benchmark. -/
inductive Workload where
  | list | queue | all
deriving DecidableEq

namespace Workload

/-- The word for a workload on the command line. -/
def word : Workload → String
  | .list => "list"
  | .queue => "queue"
  | .all => "all"

/-- The workloads in the order in which they are offered. -/
def every : List Workload := [.list, .queue, .all]

/-- The workload with the given word, in exactly this spelling. -/
def ofWord? (text : String) : Option Workload :=
  every.find? fun w => w.word == text

@[simp] theorem ofWord?_word (w : Workload) : ofWord? w.word = some w := by
  cases w <;> decide

end Workload

/-- What the command line sets. -/
structure Settings where
  threads : Nat
  ops : Nat
  writePercent : Nat
  workload : Workload
  seed? : Option Nat
deriving DecidableEq

/-- The arguments that take a value: three by their place, two by their name. -/
inductive Slot where
  | threads | ops | writePercent | workload | seed
deriving DecidableEq

namespace Slot

/-- How an argument is spoken of in messages. -/
def label : Slot → String
  | .threads => "<THREADS>"
  | .ops => "<OPS>"
  | .writePercent => "<WRITE_RATIO>"
  | .workload => "--workload <WORKLOAD>"
  | .seed => "--seed <SEED>"

/-- The arguments that go by their place, in order. -/
def positional : List Slot := [.threads, .ops, .writePercent]

/-- The argument with a name, without its dashes. -/
def ofName? (name : String) : Option Slot :=
  match name with
  | "workload" => some .workload
  | "seed" => some .seed
  | _ => none

end Slot

end ReaderWriter.CommandLine
