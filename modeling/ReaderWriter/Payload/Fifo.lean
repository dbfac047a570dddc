/-!
# First in, first out

A queue that takes elements at the back and gives them up at the front, each
in constant time on the average. It is seen through `toList`, front first;
which of the two lists holds an element is of no account.
-/

namespace ReaderWriter

/-- A queue: the front in order, and the back in reverse. -/
structure Fifo (α : Type) where
  front : List α
  back : List α
deriving DecidableEq

namespace Fifo

variable {α : Type}

/-- The queue that holds the elements of a list, its head in front. -/
def ofList (xs : List α) : Fifo α := ⟨xs, []⟩

/-- The elements, front first. -/
def toList (q : Fifo α) : List α :=
  q.front ++ q.back.reverse

/-- The queue holds nothing. -/
def isEmpty (q : Fifo α) : Bool :=
  q.front.isEmpty && q.back.isEmpty

/-- Adds an element at the back. -/
def push (q : Fifo α) (a : α) : Fifo α :=
  { q with back := a :: q.back }

/-- Takes away the element in front, if there is one. -/
def pop (q : Fifo α) : Fifo α :=
  match q.front with
  | _ :: rest => { q with front := rest }
  | [] => ⟨q.back.reverse.tail, []⟩

@[simp] theorem toList_ofList (xs : List α) : (ofList xs).toList = xs := by
  simp [ofList, toList]

@[simp] theorem toList_push (q : Fifo α) (a : α) : (q.push a).toList = q.toList ++ [a] := by
  simp [push, toList]

@[simp] theorem toList_pop (q : Fifo α) : q.pop.toList = q.toList.tail := by
  unfold pop toList
  cases q.front <;> simp

@[simp] theorem isEmpty_eq (q : Fifo α) : q.isEmpty = q.toList.isEmpty := by
  cases q with
  | mk front back => cases front <;> cases back <;> simp [isEmpty, toList]

end Fifo

end ReaderWriter
