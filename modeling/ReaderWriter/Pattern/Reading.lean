import ReaderWriter.Pattern.Token

/-!
# Reading patterns

The parts of a pattern are put together from the left. A group that is open
keeps the alternatives before the last bar and the pieces behind it; what
closes a group makes a single piece of it for the group around.
-/

namespace ReaderWriter.Pattern

/-- A group that has been opened and not closed. -/
structure OpenGroup where
  mode : Mode
  /-- The alternatives before the last bar, the last of them first. -/
  alternatives : List Pattern
  /-- The pieces behind the last bar, the last of them first. There is no
  pattern where the mode was changed: that cannot be repeated. -/
  pieces : List (Option Pattern)

namespace OpenGroup

/-- A group that begins in a mode. -/
def start (mode : Mode) : OpenGroup := ⟨mode, [], []⟩

/-- Adds a piece. -/
def add (g : OpenGroup) (p : Pattern) : OpenGroup :=
  { g with pieces := some p :: g.pieces }

/-- The pieces behind the last bar, one after another. -/
def sequence (g : OpenGroup) : Pattern :=
  (g.pieces.filterMap id).foldl (fun behind p => .seq p behind) .empty

/-- The pattern that a group comes to. -/
def pattern (g : OpenGroup) : Pattern :=
  g.alternatives.foldl (fun later p => .either p later) g.sequence

end OpenGroup

/-- The groups that are open, the innermost apart. -/
structure Reading where
  inner : OpenGroup
  outer : List OpenGroup

namespace Reading

/-- The set as it is meant in a mode. -/
def inMode (mode : Mode) (set : Chars) : Chars :=
  if mode.caseless then set.caseless else set

/-- The characters that the dot stands for. -/
def dot (mode : Mode) : Chars :=
  if mode.dotAll then .all else .allBut (.single '\n')

/-- Adds a piece to the innermost group. -/
def add (r : Reading) (p : Pattern) : Reading :=
  { r with inner := r.inner.add p }

/-- Reads one part. -/
def next (r : Reading) : Token → Option Reading
  | .chars set => some (r.add (.one (inMode r.inner.mode set)))
  | .dot => some (r.add (.one (dot r.inner.mode)))
  | .edge kind => some (r.add (.edge kind))
  | .group change => some ⟨.start (r.inner.mode.change change), r.inner :: r.outer⟩
  | .groupEnd =>
    match r.outer with
    | [] => none
    | g :: outer => some ⟨g.add r.inner.pattern, outer⟩
  | .bar =>
    some { r with
      inner := ⟨r.inner.mode, r.inner.sequence :: r.inner.alternatives, []⟩ }
  | .mode change =>
    some { r with
      inner := ⟨r.inner.mode.change change, r.inner.alternatives, none :: r.inner.pieces⟩ }
  | .count least most? =>
    match r.inner.pieces with
    | some p :: pieces =>
      some { r with inner := { r.inner with pieces := some (.times p least most?) :: pieces } }
    | _ => none

end Reading

/-- Reads a written pattern, if it is one. -/
def ofText? (text : List Char) : Option Pattern := do
  let r ← (← tokens? text).foldlM Reading.next ⟨.start ⟨false, false⟩, []⟩
  if r.outer.isEmpty then some r.inner.pattern else none

end ReaderWriter.Pattern
