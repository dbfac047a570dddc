/-!
# Patterns

A pattern describes texts: which characters may follow one another, what may be
repeated, and what must hold of the gaps between characters. To find a pattern
in a text, mark the gaps where it may begin; every part of the pattern turns
the marked gaps into those that it may end at. Marks are one for each gap, so a
text of `n` characters has `n + 1` of them, and a repetition that could go on
for ever has marked all it can after `n` turns.
-/

namespace ReaderWriter

/-- A set of characters. -/
inductive Chars where
  | none
  /-- The characters from the first to the last of a range. -/
  | range (first last : Char)
  | either (a b : Chars)
  | both (a b : Chars)
  | allBut (a : Chars)
  /-- The characters that are in a set as they are, as capitals or as small
  letters of the Latin alphabet. -/
  | anyCase (a : Chars)
deriving DecidableEq

namespace Chars

/-- The set has the character. -/
def has : Chars → Char → Bool
  | .none, _ => false
  | .range first last, c => first ≤ c && c ≤ last
  | .either a b, c => a.has c || b.has c
  | .both a b, c => a.has c && b.has c
  | .allBut a, c => !a.has c
  | .anyCase a, c => a.has c || a.has c.toLower || a.has c.toUpper

/-- A single character. -/
def single (c : Char) : Chars := .range c c

/-- All characters. -/
def all : Chars := .allBut .none

/-- The set that takes no notice of case: in its ranges, and so before anything
is left out of all characters. -/
def caseless : Chars → Chars
  | .none => .none
  | .range first last => .anyCase (.range first last)
  | .either a b => .either a.caseless b.caseless
  | .both a b => .both a.caseless b.caseless
  | .allBut a => .allBut a.caseless
  | .anyCase a => .anyCase a

/-- The decimal digits. -/
def digits : Chars := .range '0' '9'

/-- The blanks among the first 128 characters. -/
def blanks : Chars := .either (.range '\t' '\r') (single ' ')

/-- The characters of words: letters, digits and the low line. -/
def word : Chars :=
  .either (.range 'a' 'z') (.either (.range 'A' 'Z') (.either digits (single '_')))

/-- The set with a name. -/
def ofName? (name : String) : Option Chars :=
  let letters := Chars.either (.range 'a' 'z') (.range 'A' 'Z')
  match name with
  | "alnum" => some (.either letters .digits)
  | "alpha" => some letters
  | "ascii" => some (.range '\x00' '\x7f')
  | "blank" => some (.either (.single '\t') (.single ' '))
  | "cntrl" => some (.either (.range '\x00' '\x1f') (.single '\x7f'))
  | "digit" => some .digits
  | "graph" => some (.range '!' '~')
  | "lower" => some (.range 'a' 'z')
  | "print" => some (.range ' ' '~')
  | "punct" =>
    some (.either (.range '!' '/') (.either (.range ':' '@')
      (.either (.range '[' '\x60') (.range '\x7b' '~'))))
  | "space" => some .blanks
  | "upper" => some (.range 'A' 'Z')
  | "word" => some .word
  | "xdigit" => some (.either .digits (.either (.range 'a' 'f') (.range 'A' 'F')))
  | _ => none

end Chars

/-- What can be asked of a gap. -/
inductive Edge where
  /-- Nothing is before the gap. -/
  | first
  /-- Nothing is behind the gap. -/
  | last
  /-- One of its neighbours belongs to a word and the other does not. -/
  | wordEdge
  | noWordEdge
  /-- A word begins behind the gap. -/
  | wordStart
  /-- A word ends before the gap. -/
  | wordEnd
  /-- No word is before the gap. -/
  | noWordBefore
  /-- No word is behind the gap. -/
  | noWordBehind
deriving DecidableEq

/-- The gap between two neighbours, where there are any, is as asked. -/
def Edge.holds (e : Edge) (before? behind? : Option Char) : Bool :=
  let before := before?.any Chars.word.has
  let behind := behind?.any Chars.word.has
  match e with
  | .first => before?.isNone
  | .last => behind?.isNone
  | .wordEdge => before != behind
  | .noWordEdge => before == behind
  | .wordStart => !before && behind
  | .wordEnd => before && !behind
  | .noWordBefore => !before
  | .noWordBehind => !behind

/-- A description of texts. -/
inductive Pattern where
  /-- The empty text. -/
  | empty
  /-- One character of a set. -/
  | one (set : Chars)
  /-- The empty text, in a gap that is as asked. -/
  | edge (kind : Edge)
  | seq (first second : Pattern)
  | either (first second : Pattern)
  /-- The body so many times, or any number of times from the least on. -/
  | times (body : Pattern) (least : Nat) (most? : Option Nat)
deriving DecidableEq

namespace Pattern

/-- A mark for each gap of a text. -/
abbrev Marks := List Bool

/-- The gaps that are marked on one side or the other. -/
def Marks.union (a b : Marks) : Marks :=
  List.zipWith (· || ·) a b

/-- Applies a change a number of times, or until it changes nothing more. -/
def settle (change : Marks → Marks) : Nat → Marks → Marks
  | 0, marks => marks
  | turns + 1, marks =>
    if change marks = marks then marks else settle change turns (change marks)

/-- Marks the gaps behind the characters of a set that stand behind marked gaps. -/
def advance (text : List Char) (set : Chars) (marks : Marks) : Marks :=
  false :: List.zipWith (fun c mark => mark && set.has c) text marks

/-- The gaps of a text, each by its neighbours. -/
def gaps (text : List Char) : List (Option Char × Option Char) :=
  (none :: text.map some).zip (text.map some ++ [none])

/-- The gaps that a pattern may end at if it begins at a marked gap. -/
def reach (text : List Char) : Pattern → Marks → Marks
  | .empty, marks => marks
  | .one set, marks => advance text set marks
  | .edge kind, marks =>
    List.zipWith (fun gap mark => mark && kind.holds gap.1 gap.2) (gaps text) marks
  | .seq first second, marks => second.reach text (first.reach text marks)
  | .either first second, marks => Marks.union (first.reach text marks) (second.reach text marks)
  | .times body least most?, marks =>
    settle (fun marks => Marks.union marks (body.reach text marks))
      ((most?.map (· - least)).getD text.length)
      (settle (fun marks => body.reach text marks) least marks)

/-- The pattern describes some part of the text. -/
def occursIn (p : Pattern) (text : String) : Bool :=
  (p.reach text.toList (List.replicate (text.toList.length + 1) true)).any id

end Pattern

end ReaderWriter
