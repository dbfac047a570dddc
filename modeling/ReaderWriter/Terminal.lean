/-!
# Text without control sequences

A message repeats what the user typed, and what the user typed may hold
sequences that a terminal obeys instead of showing them. The plain text of a
text is what a terminal would show of it: sequences are dropped, and so are
characters that are neither visible nor breaks between words and lines.

A terminal reads one character after another, and all that it keeps in mind is
its place: on the ground, or somewhere in a sequence. A sequence that is never
finished swallows what is left, except that a break shows through the short
kinds of sequences and ends them. Reading a plain text again changes nothing.
-/

namespace ReaderWriter.Terminal

/-- Where a terminal stands between two characters. -/
inductive Place where
  /-- Outside of all sequences. -/
  | ground
  /-- Behind the escape character. -/
  | escape
  /-- Behind an escape and further characters, none of them the last. -/
  | intermediate
  /-- In a control sequence. -/
  | control
  /-- In a command to the system, which a bell ends. -/
  | command
  /-- At the head of a device string. -/
  | device
  /-- Among the parameters of a device string. -/
  | deviceParameters
  /-- Behind the parameters of a device string. -/
  | deviceIntermediates
  /-- In the body of a string, which the device ignores or keeps to itself. -/
  | body
deriving DecidableEq

/-- The character that begins a sequence, wherever it stands. -/
def escapeChar : Char := '\x1b'

/-- The characters that break a sequence off. -/
def isAbort (c : Char) : Bool :=
  c = '\x18' || c = '\x1a'

/-- The character that nothing comes of. -/
def deleteChar : Char := '\x7f'

/-- The breaks between words and lines, the space apart. -/
def isBreak (c : Char) : Bool :=
  c = '\t' || c = '\n' || c = '\x0c' || c = '\r'

/-- The character has the byte in its encoding that closes a string. -/
def closesString (c : Char) : Bool :=
  (String.utf8EncodeChar c).contains 0x9c

namespace Place

/-- The terminal shows the character at this place. -/
def shows : Place → Char → Bool
  | .ground, c => isBreak c || (' ' ≤ c && c ≠ deleteChar)
  | .escape, c | .intermediate, c | .control, c => isBreak c
  | _, _ => false

/-- The place behind a character from the space to the tilde. -/
def afterGraphic : Place → Char → Place
  | .ground, _ => .ground
  | .escape, c =>
    if c < '0' then .intermediate
    else
      match c with
      | '[' => .control
      | ']' => .command
      | 'P' => .device
      | 'X' | '^' | '_' => .body
      | _ => .ground
  | .intermediate, c => if c < '0' then .intermediate else .ground
  | .control, c => if c < '@' then .control else .ground
  | .command, _ => .command
  | .device, c =>
    if c < '0' then .deviceIntermediates else if c < '@' then .deviceParameters else .body
  | .deviceParameters, c =>
    if c < '0' then .deviceIntermediates else if c < '<' then .deviceParameters else .body
  | .deviceIntermediates, c => if c < '0' then .deviceIntermediates else .body
  | .body, _ => .body

/-- The place behind a character that is not shown. -/
def after (p : Place) (c : Char) : Place :=
  if c = escapeChar then .escape
  else if isAbort c then .ground
  else if c < ' ' then (if p = .command ∧ c = '\x07' then .ground else p)
  else if c < deleteChar then p.afterGraphic c
  else if p = .body ∧ closesString c then .ground
  else p

end Place

/-- What a terminal shows of some characters from a place on. It is back on the
ground behind every character that it shows. -/
def plainFrom : Place → List Char → List Char
  | _, [] => []
  | p, c :: rest =>
    if p.shows c then c :: plainFrom .ground rest else plainFrom (p.after c) rest

/-- What a terminal shows of a text. -/
def plain (text : String) : String :=
  String.ofList (plainFrom .ground text.toList)

theorem Place.shows_ground {p : Place} {c : Char} (h : p.shows c = true) :
    Place.ground.shows c = true := by
  cases p <;> simp_all [Place.shows]

/-- All that is shown would be shown on the ground. -/
theorem shows_of_mem_plainFrom {p : Place} {cs : List Char} {c : Char} (h : c ∈ plainFrom p cs) :
    Place.ground.shows c = true := by
  fun_induction plainFrom p cs with
  | case1 => cases h
  | case2 p c' rest hs ih =>
    rcases List.mem_cons.mp h with rfl | h
    · exact Place.shows_ground hs
    · exact ih h
  | case3 p c' rest _ ih => exact ih h

/-- Where everything is shown, nothing is dropped. -/
theorem plainFrom_ground_eq_self {cs : List Char}
    (h : ∀ c ∈ cs, Place.ground.shows c = true) : plainFrom .ground cs = cs := by
  induction cs with
  | nil => rfl
  | cons c rest ih =>
    rw [plainFrom, if_pos (h c List.mem_cons_self),
      ih fun d hd => h d (List.mem_cons_of_mem c hd)]

@[simp] theorem plain_plain (text : String) : plain (plain text) = plain text := by
  simp only [plain, String.toList_ofList,
    plainFrom_ground_eq_self fun _ => shows_of_mem_plainFrom]

end ReaderWriter.Terminal
