import ReaderWriter.Bench
import ReaderWriter.LogFilter

/-!
# The program

Runs the benchmark on the arguments of the command line. The variable
RUST_LOG holds the filter of the log; it is `info` if nothing is said.
-/

namespace ReaderWriter.Main

/-- The number of ones in a hexadecimal digit. -/
def ones : Char → Nat
  | '1' | '2' | '4' | '8' => 1
  | '3' | '5' | '6' | '9' | 'a' | 'c' => 2
  | '7' | 'b' | 'd' | 'e' => 3
  | 'f' => 4
  | _ => 0

/-- The number of hardware threads that this process may run on, as far as the
system tells; a quota of their time is not looked at. The number is only logged. -/
def hardwareThreads : IO Nat := do
  try
    let lines ← IO.FS.lines "/proc/self/status"
    let allowed := lines.toList.find? (·.startsWith "Cpus_allowed:")
    return max 1 (((allowed.getD "").toList.drop 13).foldl (fun n c => n + ones c) 0)
  catch _ => return 1

/-- Looks at the clock before and after a round of turns. -/
def timed : Bench.Arena IO := fun payload plan threads => do
  let before ← IO.monoNanosNow
  let played ← IO.lazyPure fun _ => payload.play (Round.inTurn plan threads)
  let after ← IO.monoNanosNow
  return (played, (after - before) / 1000)

/-- A number drawn by chance. -/
def chance : IO UInt64 := do
  let high ← IO.rand 0 4294967295
  let low ← IO.rand 0 4294967295
  return UInt64.ofNat (high * 4294967296 + low)

/-- Prints a transcript and ends with its exit code. -/
def report (t : Bench.Transcript) : IO UInt32 := do
  let filter := LogFilter.ofText ((← IO.getEnv "RUST_LOG").getD "info")
  for r in t.log do
    if filter.passes r then IO.eprintln r.line
  for line in t.lines do
    IO.println line
  if let some text := t.complaint then
    IO.eprintln text
  return UInt32.ofNat t.exit

end ReaderWriter.Main

/-- Runs the benchmark. -/
def main (arguments : List String) : IO UInt32 := do
  let hardware ← ReaderWriter.Main.hardwareThreads
  let seed ← ReaderWriter.Main.chance
  ReaderWriter.Main.report
    (← ReaderWriter.Bench.execute ReaderWriter.Main.timed hardware seed arguments)
