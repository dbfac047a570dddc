import ReaderWriter.Pattern.Reading
import ReaderWriter.Record

/-!
# Log filters

A filter is written as rules with commas between them: a level by itself holds
for all records, and a level behind the name of a part of the program holds for
the records from there. Behind a slash there may be a pattern that must occur
in a record besides. Of the rules that a record falls under, the one with the
longest name decides; without any rule only errors pass.

What is not understood is left out: a rule, or a pattern, or all of a text with
more than one slash.
-/

namespace ReaderWriter

/-- The pieces of a text between the places where a character stands. -/
def piecesBetween (c : Char) : List Char → List (List Char)
  | [] => [[]]
  | d :: rest =>
    if d = c then [] :: piecesBetween c rest
    else
      match piecesBetween c rest with
      | piece :: pieces => (d :: piece) :: pieces
      | [] => [[d]]

/-- A rule of a filter. -/
structure LogRule where
  /-- The name that the origin of a record has to begin with, if any. -/
  name? : Option String
  /-- The level down to which records pass, if any do. -/
  level? : Option Level
deriving DecidableEq

namespace LogRule

/-- The level that a word names in any case, or that none is to pass. -/
def limitOfWord? (word : List Char) : Option (Option Level) :=
  match (String.ofList word).toLower with
  | "off" => some none
  | "error" => some (some .error)
  | "warn" => some (some .warn)
  | "info" => some (some .info)
  | "debug" => some (some .debug)
  | "trace" => some (some .trace)
  | _ => none

/-- Reads a rule. A name without a level lets everything from there pass. -/
def ofText? (text : List Char) : Option LogRule :=
  match piecesBetween '=' text with
  | [word] =>
    match limitOfWord? word with
    | some level? => some ⟨none, level?⟩
    | none => some ⟨some (String.ofList word), some .trace⟩
  | [name, word] =>
    let name := String.ofList name
    match trimBlanks word with
    | [] => some ⟨some name, some .trace⟩
    | word => (limitOfWord? word).map fun level? => ⟨some name, level?⟩
  | _ => none

/-- The rule holds for records from the given part of the program. -/
def covers (d : LogRule) (origin : String) : Bool :=
  d.name?.all fun name => name.toList.isPrefixOf origin.toList

/-- The length of the name. -/
def width (d : LogRule) : Nat :=
  (d.name?.map String.length).getD 0

/-- Adds a rule at the end, or in the place of the one with the same name. -/
def insert (d : LogRule) : List LogRule → List LogRule
  | [] => [d]
  | e :: rest => if e.name? = d.name? then d :: rest else e :: insert d rest

end LogRule

/-- The rules of a filter, and the pattern that must occur. -/
structure LogFilter where
  rules : List LogRule
  pattern? : Option Pattern
deriving DecidableEq

namespace LogFilter

/-- Reads the rules of a filter. -/
def rulesOf (text : List Char) : List LogRule :=
  (((piecesBetween ',' text).map trimBlanks).filter (!·.isEmpty)).filterMap LogRule.ofText?
    |>.foldl (fun rules d => LogRule.insert d rules) []

/-- Reads a filter. -/
def ofText (text : String) : LogFilter :=
  match piecesBetween '/' text.toList with
  | [rules] => ⟨rulesOf rules, none⟩
  | [rules, pattern] => ⟨rulesOf rules, Pattern.ofText? pattern⟩
  | _ => ⟨[], none⟩

/-- The rule that decides on the records from a part of the program: the one
with the longest name, and of two of them the later. -/
def ruling? (f : LogFilter) (origin : String) : Option LogRule :=
  (f.rules.filter (·.covers origin)).foldl
    (fun best? d => if best?.all (·.width ≤ d.width) then some d else best?) none

/-- The level down to which the records from a part of the program pass. -/
def level? (f : LogFilter) (origin : String) : Option Level :=
  if f.rules.isEmpty then some .error else (f.ruling? origin).bind (·.level?)

/-- The filter lets the record pass. -/
def passes (f : LogFilter) (r : Record) : Bool :=
  (f.level? r.origin).any (fun limit => r.level.rank ≤ limit.rank) &&
    f.pattern?.all (·.occursIn r.text)

end LogFilter

end ReaderWriter
