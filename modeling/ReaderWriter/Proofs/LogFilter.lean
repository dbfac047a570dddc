import Mathlib.Data.List.Induction
import ReaderWriter.LogFilter
import ReaderWriter.Proofs.Pattern

/-!
# What passes a log filter

One rule decides on a record: of those that the record falls under, the one with the longest
name, and the last of these if there are several. A record passes if this rule lets its level
pass and the pattern describes some part of its text; where the pattern is a plain word, if the
text has this word as a part.
-/

namespace ReaderWriter.LogFilter

variable {f : LogFilter} {origin : String} {d e : LogRule} {rules rest : List LogRule}

/-- The rule decides on the records from a part of the program. -/
def Decides (rules : List LogRule) (origin : String) (d : LogRule) : Prop :=
  ∃ first rest, rules = first ++ d :: rest ∧ d.covers origin = true ∧
    (∀ e ∈ first, e.covers origin = true → e.width ≤ d.width) ∧
      ∀ e ∈ rest, e.covers origin = true → e.width < d.width

/-- What is the deciding rule when one rule more has been looked at. -/
def choose (origin : String) (best? : Option LogRule) (d : LogRule) : Option LogRule :=
  if d.covers origin then if best?.all (·.width ≤ d.width) then some d else best? else best?

theorem choose_of_not_covers (h : d.covers origin = false) (best? : Option LogRule) :
    choose origin best? d = best? := by
  simp [choose, h]

theorem choose_none (h : d.covers origin = true) : choose origin none d = some d := by
  simp [choose, h]

theorem choose_some (h : d.covers origin = true) (best : LogRule) :
    choose origin (some best) d = some (if best.width ≤ d.width then d else best) := by
  rw [choose, if_pos h, apply_ite some]
  simp

theorem ruling?_eq (f : LogFilter) (origin : String) :
    f.ruling? origin = f.rules.foldl (choose origin) none := by
  rw [ruling?, List.foldl_filter]
  rfl

theorem Decides.concat (h : Decides rules origin d)
    (he : e.covers origin = true → e.width < d.width) : Decides (rules ++ [e]) origin d := by
  obtain ⟨first, rest, rfl, hd, hfirst, hrest⟩ := h
  refine ⟨first, rest ++ [e], by simp, hd, hfirst, ?_⟩
  intro e' he'
  obtain hmem | hmem := List.mem_append.mp he'
  · exact hrest e' hmem
  · exact List.mem_singleton.mp hmem ▸ he

theorem Decides.width_le (h : Decides rules origin d) (he : e ∈ rules)
    (hcovers : e.covers origin = true) : e.width ≤ d.width := by
  obtain ⟨first, rest, rfl, -, hfirst, hrest⟩ := h
  obtain hmem | rfl | hmem := (List.mem_append.trans (or_congr_right List.mem_cons)).mp he
  · exact hfirst e hmem hcovers
  · exact Nat.le_refl _
  · exact Nat.le_of_lt (hrest e hmem hcovers)

/-- What is chosen in the end decides, and without it there is no rule to decide. -/
theorem foldl_choose (rules : List LogRule) (origin : String) :
    match rules.foldl (choose origin) none with
    | none => ∀ e ∈ rules, e.covers origin = false
    | some d => Decides rules origin d := by
  induction rules using List.reverseRecOn with
  | nil => exact fun e he => by cases he
  | append_singleton rules e ih =>
      rw [List.foldl_append, List.foldl_cons, List.foldl_nil]
      cases hbest : rules.foldl (choose origin) none with
      | none =>
          rw [hbest] at ih
          cases he : e.covers origin with
          | false =>
              rw [choose_of_not_covers he]
              intro x hx
              obtain hmem | hmem := List.mem_append.mp hx
              · exact ih x hmem
              · exact List.mem_singleton.mp hmem ▸ he
          | true =>
              rw [choose_none he]
              refine ⟨rules, [], rfl, he, fun x hx hcovers => ?_, fun _ h => by cases h⟩
              exact absurd hcovers (ne_true_of_eq_false (ih x hx))
      | some d =>
          rw [hbest] at ih
          cases he : e.covers origin with
          | false =>
              rw [choose_of_not_covers he]
              exact ih.concat fun hcovers => absurd hcovers (ne_true_of_eq_false he)
          | true =>
              rw [choose_some he]
              by_cases hle : d.width ≤ e.width
              · rw [if_pos hle]
                exact ⟨rules, [], rfl, he,
                  fun x hx hcovers => Nat.le_trans (ih.width_le hx hcovers) hle,
                  fun _ h => by cases h⟩
              · rw [if_neg hle]
                exact ih.concat fun _ => Nat.lt_of_not_le hle

theorem Decides.mem (h : Decides rules origin d) : d ∈ rules := by
  obtain ⟨first, rest, rfl, -⟩ := h
  simp

theorem Decides.covers (h : Decides rules origin d) : d.covers origin = true := by
  obtain ⟨first, rest, -, hd, -⟩ := h
  exact hd

/-- There is no other rule to decide. -/
theorem Decides.unique (h : Decides rules origin d) (h' : Decides rules origin e) : d = e := by
  -- Whichever of two rules came first would be shorter than the other, and yet not shorter.
  have hle : d.width ≤ e.width := h'.width_le h.mem h.covers
  have hle' : e.width ≤ d.width := h.width_le h'.mem h'.covers
  obtain ⟨first, rest, hrules, hd, -, hrest⟩ := h
  obtain ⟨first', rest', hrules', he, -, hrest'⟩ := h'
  obtain ⟨between, -, hsplit⟩ | ⟨between, -, hsplit⟩ :=
    List.append_eq_append_iff.mp (hrules.symm.trans hrules')
  · cases between with
    | nil => exact (List.cons.inj hsplit).1
    | cons x between =>
        have hmem : e ∈ rest := by simp [(List.cons.inj hsplit).2]
        exact absurd (hrest e hmem he) (Nat.not_lt.mpr hle)
  · cases between with
    | nil => exact (List.cons.inj hsplit).1.symm
    | cons x between =>
        have hmem : d ∈ rest' := by simp [(List.cons.inj hsplit).2]
        exact absurd (hrest' d hmem hd) (Nat.not_lt.mpr hle')

theorem ruling?_eq_some_iff : f.ruling? origin = some d ↔ Decides f.rules origin d := by
  have hspec := foldl_choose f.rules origin
  rw [ruling?_eq]
  cases hbest : f.rules.foldl (choose origin) none with
  | none =>
      rw [hbest] at hspec
      constructor
      · intro h
        cases h
      · intro h
        exact absurd h.covers (ne_true_of_eq_false (hspec d h.mem))
  | some e =>
      rw [hbest] at hspec
      refine ⟨fun h => ?_, fun h => congrArg some (hspec.unique h)⟩
      cases h
      exact hspec

/-- The records from a part of the program pass down to a level. -/
def Admits (f : LogFilter) (origin : String) (limit : Level) : Prop :=
  (f.rules = [] ∧ limit = .error) ∨ ∃ d, Decides f.rules origin d ∧ d.level? = some limit

theorem level?_eq_some_iff {limit : Level} :
    f.level? origin = some limit ↔ f.Admits origin limit := by
  rw [level?, Admits]
  cases hrules : f.rules with
  | nil =>
      have hnone : ∀ d, ¬ Decides [] origin d := fun d h => by cases h.mem
      simp [hnone, eq_comm]
  | cons d rest =>
      rw [← hrules]
      simp [hrules, Option.bind_eq_some_iff, ruling?_eq_some_iff]

/-- A record passes just if its level is within what its part of the program is admitted, and
the pattern, if there is one, describes some part of its text. -/
theorem passes_iff {r : Record} : f.passes r = true ↔
    (∃ limit, f.Admits r.origin limit ∧ r.level.rank ≤ limit.rank) ∧
      ∀ p ∈ f.pattern?, ∃ i j, i ≤ r.text.toList.length ∧ p.Spans r.text.toList i j := by
  have hlevel : ∀ limit? : Option Level,
      limit?.any (fun limit => r.level.rank ≤ limit.rank) = true ↔
        ∃ limit, limit? = some limit ∧ r.level.rank ≤ limit.rank := by
    intro limit?
    cases limit? <;> simp
  rw [passes, Bool.and_eq_true, hlevel]
  simp only [level?_eq_some_iff, Option.all_eq_true, Pattern.occursIn_iff, Option.mem_def]

/-- Where nothing else is asked for, records of information pass and those of detail do not. -/
theorem passes_info (r : Record) :
    (ofText "info").passes r = true ↔ r.level ≠ .debug ∧ r.level ≠ .trace := by
  have hfilter : ofText "info" = ⟨[⟨none, some .info⟩], none⟩ := by decide +kernel
  have hlevel : (⟨[⟨none, some .info⟩], none⟩ : LogFilter).level? r.origin = some .info := rfl
  rw [hfilter, passes, hlevel, Option.any_some, Option.all_none, Bool.and_true,
    decide_eq_true_iff]
  cases r.level <;> decide

/-! ## Written filters -/

theorem piecesBetween_of_not_mem {c : Char} {text : List Char} (h : c ∉ text) :
    piecesBetween c text = [text] := by
  induction text with
  | nil => rfl
  | cons d rest ih =>
      have hne : d ≠ c := fun heq => h (heq ▸ List.mem_cons_self)
      rw [piecesBetween, if_neg hne, ih fun hmem => h (List.mem_cons_of_mem d hmem)]

theorem piecesBetween_append {c : Char} {first : List Char} (h : c ∉ first) (rest : List Char) :
    piecesBetween c (first ++ c :: rest) = first :: piecesBetween c rest := by
  induction first with
  | nil => rw [List.nil_append, piecesBetween, if_pos rfl]
  | cons d behind ih =>
      have hne : d ≠ c := fun heq => h (heq ▸ List.mem_cons_self)
      rw [List.cons_append, piecesBetween, if_neg hne,
        ih fun hmem => h (List.mem_cons_of_mem d hmem)]

/-- A word behind a slash leaves, of the records that pass without it, those whose text has the
word as a part. -/
theorem passes_word {text : String} {word : List Char} {r : Record} (htext : '/' ∉ text.toList)
    (hslash : '/' ∉ word) (hword : ∀ c ∈ word, Pattern.isSign c = false) :
    (ofText (text ++ "/" ++ String.ofList word)).passes r = true ↔
      (ofText text).passes r = true ∧ word <:+: r.text.toList := by
  have hsplit : (text ++ "/" ++ String.ofList word).toList = text.toList ++ '/' :: word := by simp
  have hboth : ofText (text ++ "/" ++ String.ofList word) =
      ⟨rulesOf text.toList, some (.ofWord word)⟩ := by
    rw [ofText, hsplit, piecesBetween_append htext, piecesBetween_of_not_mem hslash]
    exact congrArg (mk _) (Pattern.ofText?_word hword)
  have hrules : ofText text = ⟨rulesOf text.toList, none⟩ := by
    rw [ofText, piecesBetween_of_not_mem htext]
  rw [hboth, hrules, passes, passes, Option.all_none, Bool.and_true, Bool.and_eq_true,
    Option.all_some, Pattern.occursIn_ofWord]
  rfl

end ReaderWriter.LogFilter
