import ReaderWriter.CommandLine.Numeral
import ReaderWriter.CommandLine.Settings
import ReaderWriter.Terminal

/-!
# Reading the command line

Arguments are read from the left. A value that has been read is put aside and
looked at only when the next argument needs the place, or at the end; so of
two faulty arguments the one that is looked at first is reported, and an
argument that nothing is known of is reported before a value that was still
put aside.

A request for help or for the version ends the reading where it stands, once
the value put aside has been found good.
-/

namespace ReaderWriter.CommandLine

/-- What is wrong with a command line. -/
inductive Fault where
  /-- A value that its argument cannot take. -/
  | badValue (slot : Slot) (value : String) (why : NumeralFault)
  /-- A word that names no workload. -/
  | badChoice (value : String)
  /-- An argument that lacks its value. -/
  | noValue (slot : Slot)
  /-- A value given to an argument that takes none. -/
  | unneededValue (value : String) (argument : String)
  /-- An argument that nothing is known of. -/
  | unexpected (argument : String)
  /-- An argument that was given before. -/
  | repeated (slot : Slot)
  /-- The arguments that are missing. -/
  | missing (slots : List Slot)
deriving DecidableEq

/-- The words that a choice may be, as a line of their own. -/
def choices : String :=
  "\n  [possible values: " ++ ", ".intercalate (Workload.every.map Workload.word) ++ "]"

/-- The text that reports a fault, after the word `error`. What the user typed
is repeated in plain text. -/
def Fault.message : Fault → String
  | .badValue slot value why =>
    s!"invalid value '{Terminal.plain value}' for '{slot.label}': {why.message}"
  | .badChoice value =>
    s!"invalid value '{Terminal.plain value}' for '{Slot.workload.label}'" ++ choices
  | .noValue slot =>
    s!"a value is required for '{slot.label}' but none was supplied"
      ++ if slot = .workload then choices else ""
  | .unneededValue value argument =>
    s!"unexpected value '{Terminal.plain value}' for '{argument}' found; no more were expected"
  | .unexpected argument => s!"unexpected argument '{Terminal.plain argument}' found"
  | .repeated slot => s!"the argument '{slot.label}' cannot be used multiple times"
  | .missing slots =>
    "the following required arguments were not provided:"
      ++ String.join (slots.map fun slot => "\n  " ++ slot.label)

/-- Why reading the arguments ended without settings. -/
inductive Stop where
  | help
  | version
  | fault (fault : Fault)
deriving DecidableEq

/-- The form of a single argument. -/
inductive Word where
  /-- Two dashes: everything after goes by its place. -/
  | escape
  /-- A name after two dashes, and the value attached to it. -/
  | long (name : String) (value? : Option String)
  /-- Letters after one dash; the first of them counts. -/
  | short (letter : Char)
  /-- Anything else, a single dash and the empty text included. -/
  | plain
deriving DecidableEq

/-- The form of an argument, seen by its dashes. -/
def Word.ofArgument (argument : String) : Word :=
  match argument.toList with
  | ['-', '-'] => .escape
  | '-' :: '-' :: cs =>
    let name := String.ofList (cs.takeWhile (· ≠ '='))
    match cs.dropWhile (· ≠ '=') with
    | [] => .long name none
    | _ :: value => .long name (some (String.ofList value))
  | '-' :: c :: _ => .short c
  | _ => .plain

/-- The settings as far as they are known. -/
structure Draft where
  threads? : Option Nat
  ops? : Option Nat
  writePercent? : Option Nat
  workload? : Option Workload
  seed? : Option Nat
deriving DecidableEq

namespace Draft

/-- Nothing is set yet. -/
def blank : Draft := ⟨none, none, none, none, none⟩

/-- A numeral for a slot, with the fault it may have. -/
def numeral (slot : Slot) (text : String) (r : Except NumeralFault Nat) : Except Stop Nat :=
  r.mapError fun why => .fault (.badValue slot text why)

/-- A word for a workload, with the fault it may have. The empty word counts as
no word at all. -/
def choice (text : String) : Except Stop Workload :=
  match Workload.ofWord? text with
  | some w => .ok w
  | none => .error (.fault (if text.isEmpty then .noValue .workload else .badChoice text))

/-- Sets a slot to a value. That a slot was set before is found out first. -/
def fill (d : Draft) (slot : Slot) (text : String) : Except Stop Draft :=
  match slot with
  | .threads => do return { d with threads? := some (← numeral slot text (Numeral.threads text)) }
  | .ops => do return { d with ops? := some (← numeral slot text (Numeral.ops text)) }
  | .writePercent => do
    return { d with writePercent? := some (← numeral slot text (Numeral.percent text)) }
  | .workload =>
    if d.workload?.isSome then .error (.fault (.repeated slot))
    else do return { d with workload? := some (← choice text) }
  | .seed =>
    if d.seed?.isSome then .error (.fault (.repeated slot))
    else do return { d with seed? := some (← numeral slot text (Numeral.seed text)) }

/-- The settings, if the places are filled. Without a word on it the workload is
all there is, and without a seed the plan is left to chance. -/
def settings (d : Draft) : Except Stop Settings :=
  match d.threads?, d.ops?, d.writePercent? with
  | some threads, some ops, some writePercent =>
    .ok ⟨threads, ops, writePercent, d.workload?.getD .all, d.seed?⟩
  | threads?, ops?, writePercent? =>
    .error (.fault (.missing
      ((if threads?.isNone then [.threads] else []) ++
        (if ops?.isNone then [.ops] else []) ++
        if writePercent?.isNone then [.writePercent] else [])))

end Draft

/-- How far the reading of the arguments has come. -/
structure Reading where
  draft : Draft
  /-- The slots that go by their place and have not been given. -/
  places : List Slot
  /-- The slot that was named last and what was given for it. -/
  pending : Option (Slot × Option String)
  /-- Two dashes have been read. -/
  escaped : Bool
deriving DecidableEq

namespace Reading

/-- Before the first argument. -/
def start : Reading := ⟨.blank, Slot.positional, none, false⟩

/-- Looks at the value that was put aside. -/
def settle (r : Reading) : Except Stop Reading :=
  match r.pending with
  | none => .ok r
  | some (slot, none) => .error (.fault (.noValue slot))
  | some (slot, some text) => do
    let draft ← r.draft.fill slot text
    return { r with draft, pending := none }

/-- Puts a value aside for the next place. -/
def place (r : Reading) (text : String) : Except Stop Reading :=
  match r.places with
  | [] => .error (.fault (.unexpected text))
  | slot :: places => do
    let r ← r.settle
    return { r with places, pending := some (slot, some text) }

/-- An argument that only ends the reading. -/
def request (r : Reading) (stop : Stop) : Except Stop Reading := do
  let _ ← r.settle
  .error stop

/-- An argument by its name. -/
def long (r : Reading) (name : String) (value? : Option String) : Except Stop Reading :=
  match Slot.ofName? name, value? with
  | some slot, none => do
    let r ← r.settle
    return { r with pending := some (slot, none) }
  | some slot, some text => do
    let r ← r.settle
    let draft ← r.draft.fill slot text
    return { r with draft }
  | none, value? =>
    if name = "help" ∨ name = "version" then
      match value? with
      | some text => .error (.fault (.unneededValue text s!"--{name}"))
      | none => r.request (if name = "help" then .help else .version)
    else .error (.fault (.unexpected s!"--{name}"))

/-- An argument by its letter. -/
def short (r : Reading) (letter : Char) : Except Stop Reading :=
  if letter = 'h' then r.request .help
  else if letter = 'V' then r.request .version
  else .error (.fault (.unexpected s!"-{letter}"))

/-- A value that stands by itself: it belongs to the name before it, if that
still lacks one, and to the next place otherwise. -/
def value (r : Reading) (text : String) : Except Stop Reading :=
  match r.pending with
  | some (slot, none) => .ok { r with pending := some (slot, some text) }
  | _ => r.place text

/-- Reads one argument. -/
def next (r : Reading) (argument : String) : Except Stop Reading :=
  if r.escaped then r.place argument
  else
    match Word.ofArgument argument with
    | .escape => .ok { r with escaped := true }
    | .long name value? => r.long name value?
    | .short letter => r.short letter
    | .plain => r.value argument

/-- What has been set once all arguments are read. -/
def finish (r : Reading) : Except Stop Settings := do
  let r ← r.settle
  r.draft.settings

end Reading

/-- Reads the settings from the arguments. -/
def parse (arguments : List String) : Except Stop Settings := do
  let r ← arguments.foldlM Reading.next .start
  r.finish

/-- The line that the program answers a request for its version with. -/
def versionLine : String := "crwwp-bench 0.1.0"

/-- The lines that the program answers a request for help with. -/
def helpLines : List String :=
  ["C-RW-WP lock benchmark",
   "",
   "Usage: crwwp-bench [OPTIONS] <THREADS> <OPS> <WRITE_RATIO>",
   "",
   "Arguments:",
   "  <THREADS>      Worker threads per round",
   "  <OPS>          Operations performed by each thread",
   "  <WRITE_RATIO>  Percentage of operations that are writes (0-100)",
   "",
   "Options:",
   "      --workload <WORKLOAD>  Which payload to benchmark [default: all] " ++
     "[possible values: list, queue, all]",
   "      --seed <SEED>          Seed for the read/write plan (random if omitted)",
   "  -h, --help                 Print help",
   "  -V, --version              Print version"]

end ReaderWriter.CommandLine
