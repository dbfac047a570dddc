import ReaderWriter.Capacity
import ReaderWriter.Keystream

/-!
# Plans

A plan is the sequence of decisions that every worker of a round walks
through: read here, write there. Each decision is one random byte held against
a threshold, so a plan with a higher share of writes writes wherever the plan
with the lower share does.
-/

namespace ReaderWriter

/-- What to do next. -/
inductive Decision where
  | read | write
deriving DecidableEq

/-- The decisions of one worker, in order. -/
structure Plan where
  decisions : List Decision
deriving DecidableEq

namespace Plan

/-- Bytes below this number decide for a write, `percent` being the share of
writes that is wanted. -/
def threshold (percent : UInt8) : Nat :=
  percent.toNat * 255 / 100

/-- The decision that a word of the stream makes by its low byte. -/
def decisionOf (threshold : Nat) (word : UInt32) : Decision :=
  if word.toUInt8.toNat < threshold then .write else .read

/-- Draws `count` decisions from the stream of a seed. -/
def generate (count : Nat) (percent : UInt8) (seed : UInt64) : Plan :=
  ⟨(Keystream.words seed count).map (decisionOf (threshold percent))⟩

/-- What a plan is drawn by. -/
structure Request where
  count : Nat
  percent : UInt8
  seed : UInt64
deriving DecidableEq

/-- Draws the plan that is asked for, if it fits into memory at a byte for each
decision. -/
def Request.draw? (r : Request) : Option Plan :=
  if Capacity.holds r.count 1 then some (generate r.count r.percent r.seed) else none

/-- The number of decisions. -/
def length (p : Plan) : Nat :=
  p.decisions.length

/-- The number of writes. -/
def writes (p : Plan) : Nat :=
  p.decisions.count .write

/-- The number of reads. -/
def reads (p : Plan) : Nat :=
  p.length - p.writes

@[simp] theorem length_generate (count : Nat) (percent : UInt8) (seed : UInt64) :
    (generate count percent seed).length = count := by
  simp [generate, length]

theorem writes_le_length (p : Plan) : p.writes ≤ p.length :=
  List.count_le_length

/-- Every decision is a read or a write. -/
theorem reads_add_writes (p : Plan) : p.reads + p.writes = p.length :=
  Nat.sub_add_cancel p.writes_le_length

end Plan

end ReaderWriter
