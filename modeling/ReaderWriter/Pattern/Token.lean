import ReaderWriter.Blank
import ReaderWriter.Pattern.Basic

/-!
# The written parts of patterns

A pattern is written in parts: characters that stand for themselves, a
backslash with what it introduces, classes in brackets, counts, groups and bars.
Every reader here takes a part off the front of the text and returns what is
left, or refuses the text.

Written patterns are matched against texts of the first 128 characters, and the
classes with a name have no other members. Classes by a property of characters,
and patterns with blanks and remarks between their parts, are not read.
-/

namespace ReaderWriter.Pattern

/-- A reader: a part and what is left behind it. -/
abbrev Reader (α : Type) := List Char → Option (α × List Char)

/-- How a group, or the rest of one, is to be read. -/
structure Mode where
  /-- Case makes no difference. -/
  caseless : Bool
  /-- The dot stands for the line break too. -/
  dotAll : Bool
deriving DecidableEq

/-- What a group changes about how it is read. -/
structure ModeChange where
  caseless? : Option Bool
  dotAll? : Option Bool
deriving DecidableEq

/-- The mode after a change. -/
def Mode.change (m : Mode) (d : ModeChange) : Mode :=
  ⟨d.caseless?.getD m.caseless, d.dotAll?.getD m.dotAll⟩

/-- A written part of a pattern. -/
inductive Token where
  | chars (set : Chars)
  | dot
  | edge (kind : Edge)
  | group (change : ModeChange)
  | groupEnd
  | bar
  /-- A change that holds up to the end of the group it stands in. -/
  | mode (change : ModeChange)
  /-- What stands before is repeated. -/
  | count (least : Nat) (most? : Option Nat)
deriving DecidableEq

/-! ## After a backslash -/

/-- What a backslash introduces. -/
inductive Escape where
  | char (c : Char)
  | set (set : Chars)
  | edge (kind : Edge)

/-- The value of a digit to base sixteen. -/
def hexDigit? (c : Char) : Option Nat :=
  if c.isDigit then some (c.toNat - '0'.toNat)
  else if 'a' ≤ c ∧ c ≤ 'f' then some (c.toNat - 'a'.toNat + 10)
  else if 'A' ≤ c ∧ c ≤ 'F' then some (c.toNat - 'A'.toNat + 10)
  else none

/-- The character whose number is written to base sixteen. -/
def ofHex? (digits : List Char) : Option Char := do
  guard !digits.isEmpty
  let value ← digits.foldlM (fun n c => (hexDigit? c).map (n * 16 + ·)) 0
  if value.isValidChar then some (Char.ofNat value) else none

/-- A character by its number: in braces, or in exactly `width` digits. -/
def readHex (width : Nat) : Reader Escape
  | '{' :: rest =>
    match rest.dropWhile (· ≠ '}') with
    | _ :: after => (ofHex? (rest.takeWhile (· ≠ '}'))).map fun c => (.char c, after)
    | [] => none
  | rest =>
    if rest.length < width then none
    else (ofHex? (rest.take width)).map fun c => (.char c, rest.drop width)

/-- The edge of a word by the name that may follow in braces. Braces that hold
no name are left for a count. -/
def readWordEdge (rest : List Char) : Option (Escape × List Char) :=
  let named (c : Char) : Bool := c.isAlpha || c = '-'
  match rest with
  | '{' :: c :: after =>
    if !named c then some (.edge .wordEdge, rest)
    else
      match String.ofList ((c :: after).takeWhile named), (c :: after).dropWhile named with
      | "start", '}' :: rest => some (.edge .wordStart, rest)
      | "end", '}' :: rest => some (.edge .wordEnd, rest)
      | "start-half", '}' :: rest => some (.edge .noWordBefore, rest)
      | "end-half", '}' :: rest => some (.edge .noWordBehind, rest)
      | _, _ => none
  | ['{'] => none
  | _ => some (.edge .wordEdge, rest)

/-- What stands behind a backslash. Letters and digits have their own meaning or
none; any other of the first 128 characters stands for itself, the angles apart. -/
def readEscape : Reader Escape
  | [] => none
  | c :: rest =>
    match c with
    | 'd' => some (.set .digits, rest)
    | 'D' => some (.set (.allBut .digits), rest)
    | 's' => some (.set .blanks, rest)
    | 'S' => some (.set (.allBut .blanks), rest)
    | 'w' => some (.set .word, rest)
    | 'W' => some (.set (.allBut .word), rest)
    | 'a' => some (.char '\x07', rest)
    | 'f' => some (.char '\x0c', rest)
    | 'n' => some (.char '\n', rest)
    | 'r' => some (.char '\r', rest)
    | 't' => some (.char '\t', rest)
    | 'v' => some (.char '\x0b', rest)
    | 'x' => readHex 2 rest
    | 'u' => readHex 4 rest
    | 'U' => readHex 8 rest
    | 'A' => some (.edge .first, rest)
    | 'z' => some (.edge .last, rest)
    | 'b' => readWordEdge rest
    | 'B' => some (.edge .noWordEdge, rest)
    | '<' => some (.edge .wordStart, rest)
    | '>' => some (.edge .wordEnd, rest)
    | _ => if c.isAlphanum || 128 ≤ c.toNat then none else some (.char c, rest)

/-! ## Classes in brackets -/

/-- How the parts of a class are put together. -/
inductive Junction where
  | both | minus | notBoth

/-- A class that has been opened and not closed. -/
structure OpenClass where
  negated : Bool
  /-- What stands before the last junction. -/
  left? : Option (Chars × Junction)
  /-- What has been read behind it. -/
  right : Chars

namespace OpenClass

/-- Adds members. -/
def add (k : OpenClass) (set : Chars) : OpenClass :=
  { k with right := .either k.right set }

/-- What the parts read so far come to. -/
def joined (k : OpenClass) : Chars :=
  match k.left? with
  | none => k.right
  | some (left, .both) => .both left k.right
  | some (left, .minus) => .both left (.allBut k.right)
  | some (left, .notBoth) => .both (.either left k.right) (.allBut (.both left k.right))

/-- Goes on behind a junction. -/
def join (k : OpenClass) (j : Junction) : OpenClass :=
  ⟨k.negated, some (k.joined, j), .none⟩

/-- The set that a class stands for. -/
def close (k : OpenClass) : Chars :=
  if k.negated then .allBut k.joined else k.joined

end OpenClass

/-- The beginning of a class behind its bracket. Dashes at the beginning, and a
closing bracket as the very first, stand for themselves. -/
def readClassStart (rest : List Char) : OpenClass × List Char :=
  let negated := rest.head? = some '^'
  let rest := if negated then rest.tail else rest
  match rest with
  | ']' :: after => (⟨negated, none, .single ']'⟩, after)
  | _ =>
    let dashes := if rest.head? = some '-' then .single '-' else .none
    (⟨negated, none, dashes⟩, rest.dropWhile (· = '-'))

/-- A class by its name, between colons in brackets. -/
def readNamedClass : Reader Chars
  | '[' :: ':' :: rest =>
    let negated := rest.head? = some '^'
    let rest := if negated then rest.tail else rest
    match rest.dropWhile (· ≠ ':'), Chars.ofName? (String.ofList (rest.takeWhile (· ≠ ':'))) with
    | ':' :: ']' :: after, some set => some (if negated then .allBut set else set, after)
    | _, _ => none
  | _ => none

/-- A member of a class by itself: a character, or a set behind a backslash. -/
def readMember : Reader (Char ⊕ Chars)
  | [] => none
  | '\\' :: rest =>
    match readEscape rest with
    | some (.char c, rest) => some (.inl c, rest)
    | some (.set set, rest) => some (.inr set, rest)
    | _ => none
  | c :: rest => some (.inl c, rest)

/-- A member of a class, or a range of them. A dash before a closing bracket or
before another dash makes no range. -/
def readMembers (text : List Char) : Option (Chars × List Char) := do
  let (member, rest) ← readMember text
  let plain := match member with
    | .inl c => Chars.single c
    | .inr set => set
  match rest with
  | '-' :: ']' :: _ | '-' :: '-' :: _ => some (plain, rest)
  | '-' :: after =>
    match member, readMember after with
    | .inl first, some (.inl last, rest) =>
      if first ≤ last then some (.range first last, rest) else none
    | _, _ => none
  | _ => some (plain, rest)

/-- The rest of a class that is inside others, innermost first, in so many parts
at most. -/
def readClassFrom : Nat → OpenClass → List OpenClass → Reader Chars
  | 0, _, _, _ => none
  | parts + 1, k, outer, text =>
    match text with
    | [] => none
    | ']' :: rest =>
      match outer with
      | [] => some (k.close, rest)
      | o :: outer => readClassFrom parts (o.add k.close) outer rest
    | '[' :: rest =>
      match readNamedClass text with
      | some (set, rest) => readClassFrom parts (k.add set) outer rest
      | none =>
        let (inner, rest) := readClassStart rest
        readClassFrom parts inner (k :: outer) rest
    | '&' :: '&' :: rest => readClassFrom parts (k.join .both) outer rest
    | '-' :: '-' :: rest => readClassFrom parts (k.join .minus) outer rest
    | '~' :: '~' :: rest => readClassFrom parts (k.join .notBoth) outer rest
    | _ =>
      match readMembers text with
      | some (set, rest) => readClassFrom parts (k.add set) outer rest
      | none => none

/-- A class behind its bracket. -/
def readClass (text : List Char) : Option (Chars × List Char) :=
  let (k, rest) := readClassStart text
  readClassFrom (text.length + 1) k [] rest

/-! ## Counts -/

/-- The greatest number that a count can name. -/
def greatestCount : Nat := 4294967295

/-- A number, with blanks around it. -/
def readNumber (text : List Char) : Option (Nat × List Char) := do
  let text := text.dropWhile isBlank
  let digits := text.takeWhile Char.isDigit
  guard !digits.isEmpty
  let value := digits.foldl (fun n c => n * 10 + (c.toNat - '0'.toNat)) 0
  guard (value ≤ greatestCount)
  return (value, (text.dropWhile Char.isDigit).dropWhile isBlank)

/-- A count behind its brace: a number, a least number, or a range. -/
def readCount (text : List Char) : Option ((Nat × Option Nat) × List Char) := do
  let (least, rest) ← readNumber text
  match rest with
  | '}' :: rest => some ((least, some least), rest)
  | ',' :: '}' :: rest => some ((least, none), rest)
  | ',' :: rest =>
    match ← readNumber rest with
    | (most, '}' :: rest) => if least ≤ most then some ((least, some most), rest) else none
    | _ => none
  | _ => none

/-- A count, and the question mark that it may have, which only says which of
several places a pattern is found at. -/
def counted (least : Nat) (most? : Option Nat) (rest : List Char) : Token × List Char :=
  (.count least most?, if rest.head? = some '?' then rest.tail else rest)

/-! ## Groups -/

/-- A change of mode by its letters: those before a dash are turned on and those
behind it off. Lines, greed and the size of the alphabet make no difference to
whether a pattern occurs in a single line. -/
def ModeChange.ofLetters? (letters : List Char) : Option ModeChange :=
  let on := letters.takeWhile (· ≠ '-')
  let off := (letters.dropWhile (· ≠ '-')).drop 1
  let named := on ++ off
  if named.any (fun c => !"imsRUu".toList.contains c) || !named.Nodup then none
  else if off.isEmpty && letters.contains '-' then none
  else
    let turned (c : Char) : Option Bool :=
      if on.contains c then some true else if off.contains c then some false else none
    some ⟨turned 'i', turned 's'⟩

/-- Changes nothing. -/
def ModeChange.nothing : ModeChange := ⟨none, none⟩

/-- The text may name a group. -/
def namesGroup : List Char → Bool
  | [] => false
  | c :: rest =>
    (c.isAlpha || c = '_') && rest.all fun d => d.isAlphanum || "_.[]".toList.contains d

/-- A group by its name, up to the closing angle. -/
def readGroupName (text : List Char) : Option (Token × List Char) :=
  match text.dropWhile (· ≠ '>') with
  | _ :: rest => if namesGroup (text.takeWhile (· ≠ '>')) then some (.group .nothing, rest) else none
  | [] => none

/-- What stands behind an opening parenthesis. -/
def readGroup : Reader Token
  | '?' :: 'P' :: '<' :: rest => readGroupName rest
  | '?' :: '<' :: rest => readGroupName rest
  | '?' :: rest =>
    let letters := rest.takeWhile fun c => c ≠ ':' ∧ c ≠ ')'
    match rest.dropWhile fun c => c ≠ ':' ∧ c ≠ ')' with
    | ':' :: rest => (ModeChange.ofLetters? letters).map fun d => (.group d, rest)
    | ')' :: rest =>
      if letters.isEmpty then none
      else (ModeChange.ofLetters? letters).map fun d => (.mode d, rest)
    | _ => none
  | rest => some (.group .nothing, rest)

/-! ## All parts -/

/-- The part that a pattern goes on with. -/
def readToken : Reader Token
  | [] => none
  | c :: rest =>
    match c with
    | '(' => readGroup rest
    | ')' => some (.groupEnd, rest)
    | '|' => some (.bar, rest)
    | '.' => some (.dot, rest)
    | '^' => some (.edge .first, rest)
    | '$' => some (.edge .last, rest)
    | '*' => some (counted 0 none rest)
    | '+' => some (counted 1 none rest)
    | '?' => some (counted 0 (some 1) rest)
    | '{' => (readCount rest).map fun ((least, most?), rest) => counted least most? rest
    | '[' => (readClass rest).map fun (set, rest) => (.chars set, rest)
    | '\\' =>
      (readEscape rest).map fun (e, rest) =>
        match e with
        | .char c => (.chars (.single c), rest)
        | .set set => (.chars set, rest)
        | .edge kind => (.edge kind, rest)
    | _ => some (.chars (.single c), rest)

/-- The parts of a pattern, so many at most. -/
def tokensFrom : Nat → List Char → Option (List Token)
  | _, [] => some []
  | 0, _ :: _ => none
  | parts + 1, text => do
    let (token, rest) ← readToken text
    return token :: (← tokensFrom parts rest)

/-- The parts of a written pattern. Each part takes a character at least. -/
def tokens? (text : List Char) : Option (List Token) :=
  tokensFrom text.length text

end ReaderWriter.Pattern
