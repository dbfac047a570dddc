import Mathlib.Logic.Function.Iterate
import ReaderWriter.Pattern.Reading

/-!
# Patterns are found where they occur

What a pattern describes is a relation between gaps: the gaps before and behind a text that it
describes. The marks follow this relation part by part, so in the end those gaps are marked that
it leads to from a gap that was marked at first.

A repetition without bound stops after as many turns as the text has characters, and loses
nothing by it: the turns that describe the empty text may be left out, and each of the others
takes a character.

A word without any of the characters that have a meaning of their own is a pattern for itself:
it is found in the texts that it is part of.
-/

namespace ReaderWriter.Pattern

/-- A relation between gaps, so many times over. -/
def Repeats (R : Nat → Nat → Prop) : Nat → Nat → Nat → Prop
  | 0, i, j => i = j
  | n + 1, i, k => ∃ j, R i j ∧ Repeats R n j k

/-- The character before a gap. -/
def before? (text : List Char) : Nat → Option Char
  | 0 => none
  | i + 1 => text[i]?

/-- The pattern describes the text between two gaps. -/
def Spans (text : List Char) : Pattern → Nat → Nat → Prop
  | .empty, i, j => i = j
  | .one set, i, j => j = i + 1 ∧ ∃ c, text[i]? = some c ∧ set.has c = true
  | .edge kind, i, j => i = j ∧ kind.holds (before? text i) text[i]? = true
  | .seq first second, i, k => ∃ j, first.Spans text i j ∧ second.Spans text j k
  | .either first second, i, j => first.Spans text i j ∨ second.Spans text i j
  | .times body least most?, i, j => ∃ more,
      (∀ most ∈ most?, more ≤ most - least) ∧ Repeats (body.Spans text) (least + more) i j

variable {R S : Nat → Nat → Prop} {f g : Marks → Marks} {size n i j : Nat} {text : List Char}

/-! ## Repetitions -/

theorem repeats_add (m n : Nat) {i k : Nat} :
    Repeats R (m + n) i k ↔ ∃ j, Repeats R m i j ∧ Repeats R n j k := by
  induction m generalizing i with
  | zero => simp [Repeats]
  | succ m ih =>
      rw [Nat.succ_add]
      simp only [Repeats, ih]
      grind

/-- A turn that may also be left out. -/
theorem repeats_eq_or : Repeats (fun i j => i = j ∨ R i j) n i j ↔ ∃ m ≤ n, Repeats R m i j := by
  induction n generalizing i with
  | zero => simp [Repeats]
  | succ n ih =>
      simp only [Repeats, ih]
      constructor
      · rintro ⟨k, rfl | hstep, m, hm, hrest⟩
        · exact ⟨m, by omega, hrest⟩
        · exact ⟨m + 1, by omega, k, hstep, hrest⟩
      · rintro ⟨m, hm, h⟩
        cases m with
        | zero => exact ⟨i, .inl rfl, 0, Nat.zero_le n, h⟩
        | succ m =>
            obtain ⟨k, hstep, hrest⟩ := h
            exact ⟨k, .inr hstep, m, by omega, hrest⟩

/-- What goes forward or stays needs no more turns than there are places to go. -/
theorem Repeats.shorten (hle : ∀ i j, R i j → i ≤ j) (h : Repeats R n i j) :
    i ≤ j ∧ ∃ m ≤ j - i, Repeats R m i j := by
  induction n generalizing i with
  | zero => exact ⟨Nat.le_of_eq h, 0, Nat.zero_le _, h⟩
  | succ n ih =>
      obtain ⟨k, hstep, hrest⟩ := h
      obtain ⟨hkj, m, hm, hshort⟩ := ih hrest
      have hik := hle i k hstep
      refine ⟨Nat.le_trans hik hkj, ?_⟩
      obtain rfl | hlt := Nat.eq_or_lt_of_le hik
      · exact ⟨m, hm, hshort⟩
      · exact ⟨m + 1, by omega, k, hstep, hshort⟩

/-! ## Marks -/

/-- A gap is marked. -/
def Marked (marks : Marks) (i : Nat) : Prop :=
  marks[i]? = some true

/-- A change of marks follows a relation: a gap is marked afterwards if the relation leads to it
from one that was marked before. -/
structure Leads (size : Nat) (f : Marks → Marks) (R : Nat → Nat → Prop) : Prop where
  length : ∀ {marks : Marks}, marks.length = size → (f marks).length = size
  marked : ∀ {marks : Marks}, marks.length = size → ∀ j,
    Marked (f marks) j ↔ ∃ i, Marked marks i ∧ R i j

theorem Leads.congr (h : Leads size f R) (hRS : ∀ i j, i < size → (R i j ↔ S i j)) :
    Leads size f S where
  length := h.length
  marked := by
    intro marks hmarks j
    rw [h.marked hmarks]
    refine exists_congr fun i => and_congr_right fun hi => hRS i j ?_
    obtain ⟨hlt, -⟩ := List.getElem?_eq_some_iff.mp hi
    exact hmarks ▸ hlt

theorem leads_refl : Leads size id (· = ·) where
  length := id
  marked := by
    intro marks _ j
    simp

theorem Leads.comp (h : Leads size f R) (h' : Leads size g S) :
    Leads size (g ∘ f) (fun i k => ∃ j, R i j ∧ S j k) where
  length := fun hmarks => h'.length (h.length hmarks)
  marked := by
    intro marks hmarks k
    rw [Function.comp_apply, h'.marked (h.length hmarks)]
    simp only [h.marked hmarks]
    grind

theorem marked_union {a b : Marks} (h : a.length = b.length) :
    Marked (Marks.union a b) j ↔ Marked a j ∨ Marked b j := by
  rw [Marked, Marked, Marked, Marks.union, List.getElem?_zipWith]
  obtain hlt | hge := Nat.lt_or_ge j a.length
  · rw [List.getElem?_eq_getElem hlt, List.getElem?_eq_getElem (h ▸ hlt)]
    simp
  · rw [List.getElem?_eq_none hge, List.getElem?_eq_none (h ▸ hge)]
    simp

theorem Leads.union (h : Leads size f R) (h' : Leads size g S) :
    Leads size (fun marks => Marks.union (f marks) (g marks)) (fun i j => R i j ∨ S i j) where
  length := by
    intro marks hmarks
    simp [Marks.union, h.length hmarks, h'.length hmarks]
  marked := by
    intro marks hmarks j
    have hsame : (f marks).length = (g marks).length := by
      rw [h.length hmarks, h'.length hmarks]
    rw [marked_union hsame, h.marked hmarks, h'.marked hmarks]
    grind

theorem Leads.iterate (h : Leads size f R) (n : Nat) : Leads size f^[n] (Repeats R n) := by
  induction n with
  | zero => exact leads_refl
  | succ n ih => exact h.comp ih

/-- Any number of turns, up to a greatest. -/
theorem Leads.grow (h : Leads size f R) (n : Nat) :
    Leads size (fun marks => Marks.union marks (f marks))^[n]
      (fun i j => ∃ m ≤ n, Repeats R m i j) :=
  ((leads_refl.union h).iterate n).congr fun _ _ _ => repeats_eq_or

/-- A change that has settled might as well be made again. -/
theorem settle_eq_iterate (change : Marks → Marks) (n : Nat) :
    settle change n = change^[n] := by
  funext marks
  induction n generalizing marks with
  | zero => rfl
  | succ n ih =>
      rw [settle]
      split
      · next hfixed => exact (Function.iterate_fixed hfixed (n + 1)).symm
      · rw [ih, Function.iterate_succ_apply]

/-! ## Parts of patterns -/

theorem leads_one (text : List Char) (set : Chars) :
    Leads (text.length + 1) (advance text set) ((one set).Spans text) where
  length := by
    intro marks hmarks
    simp [advance, hmarks]
  marked := by
    intro marks _ j
    rw [Marked, advance]
    cases j with
    | zero => simp [Spans]
    | succ j =>
        rw [List.getElem?_cons_succ, List.getElem?_zipWith_eq_some]
        simp only [Marked, Spans, Bool.and_eq_true]
        grind

theorem getElem?_gaps (hi : i ≤ text.length) :
    (gaps text)[i]? = some (before? text i, text[i]?) := by
  rw [gaps, List.getElem?_zip_eq_some]
  constructor
  · cases i with
    | zero => rfl
    | succ i =>
        rw [List.getElem?_cons_succ, List.getElem?_map, before?, List.getElem?_eq_getElem hi]
        rfl
  · obtain hlt | rfl := Nat.lt_or_eq_of_le hi
    · rw [List.getElem?_append_left (by simpa using hlt), List.getElem?_map,
        List.getElem?_eq_getElem hlt]
      rfl
    · simp

theorem leads_edge (text : List Char) (kind : Edge) :
    Leads (text.length + 1) ((edge kind).reach text) ((edge kind).Spans text) where
  length := by
    intro marks hmarks
    simp [reach, gaps, hmarks]
  marked := by
    intro marks hmarks j
    rw [Marked, reach, List.getElem?_zipWith_eq_some]
    simp only [Marked, Spans]
    constructor
    · rintro ⟨gap, mark, hgap, hmark, hholds⟩
      have hlt : j < marks.length := (List.getElem?_eq_some_iff.mp hmark).1
      rw [getElem?_gaps (by omega)] at hgap
      grind
    · rintro ⟨i, hmark, rfl, hholds⟩
      have hlt : i < marks.length := (List.getElem?_eq_some_iff.mp hmark).1
      exact ⟨_, _, getElem?_gaps (by omega), hmark, by simp [hholds]⟩

/-- A pattern describes no text that runs backwards or out of the whole. -/
theorem Spans.le {p : Pattern} (h : p.Spans text i j) :
    i ≤ j ∧ (i ≤ text.length → j ≤ text.length) := by
  induction p generalizing i j with
  | empty => exact ⟨Nat.le_of_eq h, fun hi => h ▸ hi⟩
  | one set =>
      obtain ⟨rfl, c, hc, -⟩ := h
      exact ⟨Nat.le_succ i, fun _ => (List.getElem?_eq_some_iff.mp hc).1⟩
  | edge kind =>
      obtain ⟨rfl, -⟩ := h
      exact ⟨Nat.le_refl i, id⟩
  | seq first second ihf ihs =>
      obtain ⟨k, hfirst, hsecond⟩ := h
      exact ⟨Nat.le_trans (ihf hfirst).1 (ihs hsecond).1,
        fun hi => (ihs hsecond).2 ((ihf hfirst).2 hi)⟩
  | either first second ihf ihs => exact h.elim ihf ihs
  | times body least most? ih =>
      obtain ⟨more, -, hrepeats⟩ := h
      generalize least + more = n at hrepeats
      induction n generalizing i with
      | zero => exact ⟨Nat.le_of_eq hrepeats, fun hi => hrepeats ▸ hi⟩
      | succ n ihn =>
          obtain ⟨k, hstep, hrest⟩ := hrepeats
          exact ⟨Nat.le_trans (ih hstep).1 (ihn hrest).1, fun hi => (ihn hrest).2 ((ih hstep).2 hi)⟩

/-- The turns that are taken with a repetition are enough for what it describes. -/
theorem times_spans_iff {body : Pattern} {least : Nat} {most? : Option Nat}
    (hi : i ≤ text.length) :
    (∃ k, Repeats (body.Spans text) least i k ∧
        ∃ m ≤ (most?.map (· - least)).getD text.length, Repeats (body.Spans text) m k j) ↔
      (times body least most?).Spans text i j := by
  constructor
  · rintro ⟨k, hleast, m, hm, hmore⟩
    refine ⟨m, ?_, (repeats_add least m).mpr ⟨k, hleast, hmore⟩⟩
    rintro most rfl
    exact hm
  · intro h
    obtain ⟨-, hj⟩ := h.le
    obtain ⟨more, hmost, hrepeats⟩ := h
    obtain ⟨k, hleast, hmore⟩ := (repeats_add least more).mp hrepeats
    refine ⟨k, hleast, ?_⟩
    cases most? with
    | some most => exact ⟨more, hmost most rfl, hmore⟩
    | none =>
        obtain ⟨-, m, hm, hshort⟩ := hmore.shorten fun _ _ hstep => hstep.le.1
        exact ⟨m, Nat.le_trans hm (Nat.le_trans (Nat.sub_le j k) (hj hi)), hshort⟩

/-- The marks of a pattern follow what it describes. -/
theorem leads_reach (text : List Char) (p : Pattern) :
    Leads (text.length + 1) (p.reach text) (p.Spans text) := by
  induction p with
  | empty => exact leads_refl
  | one set => exact leads_one text set
  | edge kind => exact leads_edge text kind
  | seq first second ihf ihs => exact ihf.comp ihs
  | either first second ihf ihs => exact ihf.union ihs
  | times body least most? ih =>
      have hreach : (times body least most?).reach text =
          (fun marks => Marks.union marks (body.reach text marks))^[
            (most?.map (· - least)).getD text.length] ∘ (body.reach text)^[least] := by
        funext marks
        rw [reach, settle_eq_iterate, settle_eq_iterate]
        rfl
      rw [hreach]
      exact ((ih.iterate least).comp (ih.grow _)).congr
        fun i j hi => times_spans_iff (Nat.le_of_lt_succ hi)

/-- A pattern is found in a text just if it describes some part of it. -/
theorem occursIn_iff {p : Pattern} {text : String} :
    p.occursIn text = true ↔ ∃ i j, i ≤ text.toList.length ∧ p.Spans text.toList i j := by
  have hstart : ∀ i, Marked (List.replicate (text.toList.length + 1) true) i ↔
      i ≤ text.toList.length := by
    intro i
    simp only [Marked, List.getElem?_replicate, Option.ite_none_right_eq_some, and_true,
      Nat.lt_succ_iff]
  have hsome : ∀ marks : Marks, marks.any id = true ↔ ∃ j, Marked marks j := by
    intro marks
    simp [Marked, ← List.mem_iff_getElem?]
  rw [occursIn, hsome, exists_comm]
  simp only [(leads_reach text.toList p).marked List.length_replicate, hstart]

/-! ## Words -/

/-- The character has a meaning of its own in a pattern. -/
def isSign (c : Char) : Bool :=
  ['(', ')', '|', '.', '^', '$', '*', '+', '?', '{', '[', '\\'].contains c

/-- The characters of a word, one after another. -/
def ofWord : List Char → Pattern
  | [] => .empty
  | c :: rest => .seq (.one (.single c)) (ofWord rest)

variable {c : Char} {word rest : List Char}

theorem readToken_of_not_isSign (h : isSign c = false) :
    readToken (c :: rest) = some (.chars (.single c), rest) := by
  rw [readToken] <;> rintro rfl <;> exact absurd h (by decide)

theorem tokens?_word (h : ∀ c ∈ word, isSign c = false) :
    tokens? word = some (word.map fun c => .chars (.single c)) := by
  rw [tokens?]
  induction word with
  | nil => rfl
  | cons c rest ih =>
      obtain ⟨hc, hrest⟩ := List.forall_mem_cons.mp h
      have hstep : tokensFrom (rest.length + 1) (c :: rest) =
          (readToken (c :: rest)).bind fun read =>
            (tokensFrom rest.length read.2).bind fun tokens => some (read.1 :: tokens) := rfl
      rw [List.length_cons, hstep, readToken_of_not_isSign hc, Option.bind_some, ih hrest]
      rfl

theorem foldlM_next_word (word : List Char) (pieces : List (Option Pattern)) :
    (word.map fun c => Token.chars (.single c)).foldlM Reading.next
        ⟨⟨⟨false, false⟩, [], pieces⟩, []⟩ =
      some ⟨⟨⟨false, false⟩, [],
        (word.map fun c => some (.one (.single c))).reverse ++ pieces⟩, []⟩ := by
  induction word generalizing pieces with
  | nil => rfl
  | cons c rest ih =>
      have hnext : Reading.next ⟨⟨⟨false, false⟩, [], pieces⟩, []⟩ (.chars (.single c)) =
          some ⟨⟨⟨false, false⟩, [], some (.one (.single c)) :: pieces⟩, []⟩ := rfl
      rw [List.map_cons, List.foldlM_cons, hnext]
      exact (ih _).trans (by simp)

theorem sequence_word (mode : Mode) (word : List Char) :
    OpenGroup.sequence ⟨mode, [], (word.map fun c => some (.one (.single c))).reverse⟩ =
      ofWord word := by
  rw [OpenGroup.sequence, List.filterMap_reverse, List.filterMap_map, List.foldl_reverse]
  induction word with
  | nil => rfl
  | cons c rest ih => exact congrArg (Pattern.seq (.one (.single c))) ih

theorem ofText?_word (h : ∀ c ∈ word, isSign c = false) : ofText? word = some (ofWord word) := by
  have hread := foldlM_next_word word []
  rw [List.append_nil] at hread
  have htext : ofText? word = (tokens? word).bind fun tokens =>
      (tokens.foldlM Reading.next ⟨.start ⟨false, false⟩, []⟩).bind fun r =>
        if r.outer.isEmpty then some r.inner.pattern else none := rfl
  rw [htext, tokens?_word h, Option.bind_some, OpenGroup.start, hread, Option.bind_some]
  exact congrArg some (sequence_word _ word)

theorem has_single {d : Char} : Chars.has (.single c) d = true ↔ d = c := by
  rw [Chars.single, Chars.has, Bool.and_eq_true, decide_eq_true_iff, decide_eq_true_iff]
  constructor
  · rintro ⟨hle, hge⟩
    exact Char.le_antisymm hge hle
  · rintro rfl
    exact ⟨Char.le_refl d, Char.le_refl d⟩

theorem cons_prefix_drop :
    c :: rest <+: text.drop i ↔ text[i]? = some c ∧ rest <+: text.drop (i + 1) := by
  rw [← List.head?_drop, ← List.tail_drop]
  cases text.drop i with
  | nil => simp
  | cons d behind => simp [List.cons_prefix_cons, eq_comm]

theorem spans_ofWord :
    (ofWord word).Spans text i j ↔ word <+: text.drop i ∧ j = i + word.length := by
  induction word generalizing i with
  | nil => simp [ofWord, Spans, eq_comm]
  | cons c rest ih =>
      simp only [ofWord, Spans, ih, has_single, cons_prefix_drop, List.length_cons]
      grind

/-- A word is found where it is part of the text. -/
theorem occursIn_ofWord {text : String} :
    (ofWord word).occursIn text = true ↔ word <:+: text.toList := by
  rw [occursIn_iff]
  simp only [spans_ofWord]
  constructor
  · rintro ⟨i, j, -, hhere, -⟩
    exact hhere.isInfix.trans (List.drop_suffix i _).isInfix
  · rintro ⟨before, behind, htext⟩
    refine ⟨before.length, _, ?_, ?_, rfl⟩
    · rw [← htext]
      simp
    · rw [← htext, List.append_assoc, List.drop_left]
      exact List.prefix_append word behind

end ReaderWriter.Pattern
