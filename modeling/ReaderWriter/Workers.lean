import ReaderWriter.Record

/-!
# The expected number of workers

A process keeps one number of workers that are expected to share its locks.
The locks do not consult it; it is set before each round and read afterwards.
-/

namespace ReaderWriter.Workers

/-- The number that is expected as long as nobody says otherwise. -/
def standard : UInt16 := 128

/-- The number to expect of so many threads; what does not fit counts as the
greatest number there is. -/
def ofThreads (threads : Nat) : UInt16 :=
  if threads ≤ 65535 then UInt16.ofNat threads else 65535

/-- Sets the number, which is logged with the one it replaces. -/
def expect (before now : UInt16) : UInt16 × Record :=
  (now, .workersExpected before now)

theorem toNat_ofThreads (threads : Nat) : (ofThreads threads).toNat = min threads 65535 := by
  unfold ofThreads
  split
  · rw [UInt16.toNat_ofNat']
    omega
  · have h : (65535 : UInt16).toNat = 65535 := rfl
    omega

end ReaderWriter.Workers
