import ReaderWriter.Lock.Basic

/-!
# The text of a lock

For diagnosis the four words of a lock are printed under a title, on one line
or with a line for each word.
-/

namespace ReaderWriter.Lock

/-- The words of a lock with the labels they are printed under. -/
def fields (l : Lock) : List (String × String) :=
  [("readers_ingress", toString l.ingress.toNat),
   ("readers_egress", toString l.egress.toNat),
   ("writers_barrier", toString l.barrier.toInt),
   ("writer_locked", if l.flag then "true" else "false")]

/-- All words on one line. -/
def describe (title : String) (l : Lock) : String :=
  title ++ " \x7b " ++ ", ".intercalate (l.fields.map fun (label, value) => label ++ ": " ++ value)
    ++ " \x7d"

/-- A line for each word. -/
def describeLines (title : String) (l : Lock) : String :=
  title ++ " \x7b\n"
    ++ String.join (l.fields.map fun (label, value) => "    " ++ label ++ ": " ++ value ++ ",\n")
    ++ "\x7d"

end ReaderWriter.Lock
