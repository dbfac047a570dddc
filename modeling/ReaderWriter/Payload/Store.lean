import ReaderWriter.Payload.Fifo

/-!
# Stores

A store is the data that the contenders of a benchmark guard, without any
guarding: a list whose writes put a node at the head and whose reads walk it,
or a queue whose writes add at the back and whose reads take from the front.
What an access does to a store is the whole meaning of a payload, whichever
lock is around it.
-/

namespace ReaderWriter

/-- An access to a payload. -/
inductive Access where
  /-- Writes a value. -/
  | write (value : UInt64)
  /-- Reads, and in a queue removes what it reads. -/
  | read
deriving DecidableEq

/-- The data of a payload. -/
inductive Store where
  /-- A list of nodes, the head first. -/
  | list (nodes : List UInt64)
  /-- A queue, and how many elements were ever taken from it. The count has no bound;
  one of eight bytes comes round after 2^64 elements, which is out of reach. -/
  | queue (elements : Fifo UInt64) (popped : Nat)
deriving DecidableEq

namespace Store

/-- A queue of the numbers below `length`. -/
def prefilled (length : Nat) : Store :=
  .queue (.ofList ((List.range length).map UInt64.ofNat)) 0

/-- What the store holds, the head or front first. -/
def toList : Store → List UInt64
  | .list nodes => nodes
  | .queue elements _ => elements.toList

/-- How many elements were ever taken from the store. -/
def popped : Store → Nat
  | .list _ => 0
  | .queue _ n => n

/-- Puts a value in: at the head of a list, at the back of a queue. -/
def put (value : UInt64) : Store → Store
  | .list nodes => .list (value :: nodes)
  | .queue elements n => .queue (elements.push value) n

/-- Takes the front of a queue away; a list stays as it is. -/
def take : Store → Store
  | .list nodes => .list nodes
  | .queue elements n => if elements.isEmpty then .queue elements n else .queue elements.pop (n + 1)

/-- A read leaves the store as it is: it is a list, or there is nothing to take. -/
def readsInPlace : Store → Bool
  | .list _ => true
  | .queue elements _ => elements.isEmpty

/-- The effect of an access. -/
def apply (s : Store) : Access → Store
  | .write value => s.put value
  | .read => s.take

/-- The content as one line, the head or front first. -/
def line (s : Store) : String :=
  ",".intercalate (s.toList.map fun v => toString v.toNat)

/-- A read that need not take anything has no effect. -/
theorem take_of_readsInPlace {s : Store} (h : s.readsInPlace = true) : s.take = s := by
  cases s with
  | list nodes => rfl
  | queue elements n => exact if_pos h

@[simp] theorem toList_put_list (value : UInt64) (nodes : List UInt64) :
    (put value (.list nodes)).toList = value :: nodes := rfl

@[simp] theorem toList_put_queue (value : UInt64) (q : Fifo UInt64) (n : Nat) :
    (put value (.queue q n)).toList = q.toList ++ [value] := by
  simp [put, toList]

@[simp] theorem toList_take_queue (q : Fifo UInt64) (n : Nat) :
    (take (.queue q n)).toList = q.toList.tail := by
  simp only [take, Fifo.isEmpty_eq]
  split <;> simp_all [toList]

end Store

end ReaderWriter
