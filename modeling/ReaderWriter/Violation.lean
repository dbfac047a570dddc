/-!
# Contract violations

A lock trusts its callers: what is released was held, and nobody holds a lock
that is torn down. A call that finds the contract broken stops with one of
these violations.
-/

namespace ReaderWriter

/-- A breach of the lock's contract by one of its callers. -/
inductive Violation where
  /-- The write lock was released while nobody held it. -/
  | notWriteLocked
  /-- The barrier was lowered more often than it was raised. -/
  | barrierBelowZero
  /-- The lock was torn down under a writer. -/
  | destroyedWriteLocked
  /-- The lock was torn down under registered readers. -/
  | destroyedWithReaders
deriving DecidableEq

/-- The text that reports a violation. -/
def Violation.message : Violation → String
  | .notWriteLocked => "c-rw-wp: write unlock of a lock that is not write-locked"
  | .barrierBelowZero => "c-rw-wp: writer barrier lowered below zero"
  | .destroyedWriteLocked => "c-rw-wp: lock destroyed while write-locked"
  | .destroyedWithReaders => "c-rw-wp: lock destroyed with registered readers"

end ReaderWriter
