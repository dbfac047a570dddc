import ReaderWriter.Blank
import ReaderWriter.Proofs.CommandLine.Numeral
import ReaderWriter.Proofs.Rounding
import ReaderWriter.Table

/-!
# Rows can be read back

A row is split at its bars, and each part is freed of the blanks around it. What comes out are
the texts that went in, as long as there are no bars and no blanks in them: the blanks that
set a column apart or fill it up are all that is taken away, however much room a text takes.

Numbers and times are such texts, so a row of a report shows the report. A time is shown to the
nearest ten thousandth of a second of what the division comes to.
-/

namespace ReaderWriter.Table

open CommandLine (Numeral.value? Numeral.value?_toString)

variable {text : String} {texts : List String} {cs : List Char} {c : Char} {n : Nat}

/-- The texts in the columns of a row. -/
def fields (line : String) : List String :=
  (line.toList.splitOn '|').map fun cs => String.ofList (trimBlanks cs)

/-- A text without bars and without blanks. -/
def Solid (text : String) : Prop :=
  ∀ c ∈ text.toList, c ≠ '|' ∧ isBlank c = false

instance (text : String) : Decidable (Solid text) :=
  List.decidableBAll _ text.toList

/-- What a row shows: its columns are a name, numerals of three numbers, and one column more. -/
structure Shows (line contender : String) (threads reads writes : Nat) : Prop where
  columns : (fields line).length = 5
  texts : (fields line).take 4 =
    [contender, toString threads, toString reads, toString writes]
  contender : (fields line)[0]? = some contender
  threads : (fields line)[1]?.bind Numeral.value? = some (threads : Int)
  reads : (fields line)[2]?.bind Numeral.value? = some (reads : Int)
  writes : (fields line)[3]?.bind Numeral.value? = some (writes : Int)

/-! ## Cells -/

theorem toList_pushn (text : String) (c : Char) (n : Nat) :
    (text.pushn c n).toList = text.toList ++ List.replicate n c := by
  rw [String.pushn_eq_repeat_push]
  induction n with
  | zero => simp [Nat.repeat]
  | succ n ih => simp [Nat.repeat, ih, List.replicate_succ']

theorem toList_cell (text : String) :
    (cell text).toList = List.replicate (width - text.length) ' ' ++ text.toList := by
  simp [cell, toList_pushn]

theorem isBlank_space : isBlank ' ' = true := by
  decide

theorem dropWhile_isBlank_eq_self (h : ∀ c ∈ cs, isBlank c = false) :
    cs.dropWhile isBlank = cs := by
  cases cs with
  | nil => rfl
  | cons c rest => exact List.dropWhile_cons_of_neg (by simp [h c List.mem_cons_self])

/-- Blanks around a text are taken away. -/
theorem trimBlanks_around {front back : List Char} (hfront : ∀ c ∈ front, isBlank c = true)
    (hback : ∀ c ∈ back, isBlank c = true) (h : ∀ c ∈ cs, isBlank c = false) :
    trimBlanks (front ++ cs ++ back) = cs := by
  have hstart : (front ++ cs ++ back).dropWhile isBlank = (cs ++ back).dropWhile isBlank := by
    rw [List.append_assoc, List.dropWhile_append_of_pos hfront]
  cases cs with
  | nil =>
      rw [trimBlanks, hstart, List.nil_append, List.dropWhile_eq_nil_iff.mpr hback]
      rfl
  | cons c rest =>
      have hkept : (c :: rest ++ back).dropWhile isBlank = c :: rest ++ back :=
        List.dropWhile_cons_of_neg (by simp [h c List.mem_cons_self])
      rw [trimBlanks, hstart, hkept, List.reverse_append,
        List.dropWhile_append_of_pos fun d hd => hback d (List.mem_reverse.mp hd),
        dropWhile_isBlank_eq_self (fun d hd => h d (List.mem_reverse.mp hd)), List.reverse_reverse]

/-! ## Rows -/

/-- Between two bars there are two blanks and a cell. -/
theorem intercalate_bars (first : List Char) (rest : List (List Char)) :
    [' ', '|', ' '].intercalate (first :: rest) ++ [' '] =
      ['|'].intercalate ((first ++ [' ']) :: rest.map fun cs => ' ' :: cs ++ [' ']) := by
  induction rest generalizing first with
  | nil => simp
  | cons second rest ih =>
      have hrest : ['|'].intercalate ((' ' :: second ++ [' ']) ::
          rest.map fun cs => ' ' :: cs ++ [' ']) =
          ' ' :: ([' ', '|', ' '].intercalate (second :: rest) ++ [' ']) := by
        rw [ih second, List.cons_append, List.intercalate_cons_cons_left]
      rw [List.map_cons, List.intercalate_cons_cons, List.intercalate_cons_cons, hrest]
      simp

theorem notMem_cell (h : Solid text) : '|' ∉ (cell text).toList := by
  rw [toList_cell, List.mem_append]
  rintro (hblank | htext)
  · exact absurd (List.eq_of_mem_replicate hblank) (by decide)
  · exact (h _ htext).1 rfl

theorem trimBlanks_cell (front : List Char) (hfront : ∀ c ∈ front, isBlank c = true)
    (h : Solid text) :
    String.ofList (trimBlanks (front ++ (cell text).toList ++ [' '])) = text := by
  have hfill : ∀ c ∈ front ++ List.replicate (width - text.length) ' ', isBlank c = true := by
    intro c hc
    obtain hc | hc := List.mem_append.mp hc
    · exact hfront c hc
    · rw [List.eq_of_mem_replicate hc]
      exact isBlank_space
  rw [toList_cell, ← List.append_assoc,
    trimBlanks_around hfill (List.forall_mem_singleton.mpr isBlank_space)
      fun c hc => (h c hc).2, String.ofList_toList]

/-- The texts of a row come back, whatever their width. -/
theorem fields_row (hne : texts ≠ []) (hsolid : ∀ text ∈ texts, Solid text) :
    fields (row texts) = texts := by
  obtain ⟨first, rest, rfl⟩ := List.exists_cons_of_ne_nil hne
  obtain ⟨hfirst, hrest⟩ := List.forall_mem_cons.mp hsolid
  have hrow : (row (first :: rest)).toList = ['|'].intercalate (((cell first).toList ++ [' ']) ::
      rest.map fun text => ' ' :: (cell text).toList ++ [' ']) := by
    have hbars := intercalate_bars (cell first).toList (rest.map fun text => (cell text).toList)
    have hbar : " | ".toList = [' ', '|', ' '] := by decide
    have hlast : " ".toList = [' '] := by decide
    rw [List.map_map, Function.comp_def] at hbars
    rw [row, String.toList_append, String.toList_intercalate, List.map_map, Function.comp_def,
      List.map_cons, hbar, hlast, hbars]
  have hnobar : ∀ l ∈ ((cell first).toList ++ [' ']) ::
      rest.map (fun text => ' ' :: (cell text).toList ++ [' ']), '|' ∉ l := by
    intro l hl
    obtain heq | hl := List.mem_cons.mp hl
    · simp [heq, notMem_cell hfirst]
    · obtain ⟨text, htext, rfl⟩ := List.mem_map.mp hl
      simp [notMem_cell (hrest text htext)]
  have hhead : String.ofList (trimBlanks ((cell first).toList ++ [' '])) = first := by
    have hcell := trimBlanks_cell [] (fun _ h => by cases h) hfirst
    rwa [List.nil_append] at hcell
  rw [fields, hrow, List.splitOn_intercalate '|' hnobar (List.cons_ne_nil _ _), List.map_cons,
    List.map_map, hhead]
  apply congrArg (List.cons first)
  calc
    _ = rest.map id := List.map_congr_left fun text htext =>
      trimBlanks_cell [' '] (List.forall_mem_singleton.mpr isBlank_space) (hrest text htext)
    _ = rest := List.map_id rest

/-! ## Reports -/

theorem isBlank_eq_false_of_isDigit (h : c.isDigit = true) : isBlank c = false := by
  have hrange := Decimal.toNat_of_isDigit h
  simp only [isBlank, blankRanges, List.any_cons, List.any_nil, Bool.or_eq_false_iff,
    Bool.and_eq_false_iff, decide_eq_false_iff_not, and_true]
  omega

theorem solid_of_digits (h : ∀ c ∈ text.toList, c.isDigit = true) : Solid text := by
  intro c hc
  have hdigit := h c hc
  have hbar : c ≠ '|' := by
    rintro rfl
    exact absurd hdigit (by decide)
  exact ⟨hbar, isBlank_eq_false_of_isDigit hdigit⟩

theorem solid_toString (n : Nat) : Solid (toString n) :=
  solid_of_digits fun _ => Decimal.isDigit_of_mem_toString

theorem Solid.append {more : String} (h : Solid text) (hmore : Solid more) :
    Solid (text ++ more) := by
  intro c hc
  rw [String.toList_append, List.mem_append] at hc
  exact hc.elim (h c) (hmore c)

theorem solid_zeros (n : Nat) : Solid ("".pushn '0' n) := by
  apply solid_of_digits
  intro c hc
  rw [toList_pushn] at hc
  obtain hc | hc := List.mem_append.mp hc
  · cases hc
  · rw [List.eq_of_mem_replicate hc]
    decide

theorem solid_seconds (micros : Nat) : Solid (seconds micros) := by
  have hpoint : Solid (toString ".") := by decide
  simp only [seconds]
  exact (((solid_toString _).append hpoint).append (solid_zeros _)).append (solid_toString _)

/-- A time of less than 2^53 microseconds goes to the nearest ten thousandth of a second,
although it is rounded twice on the way; only in the middle between two it may be either. -/
theorem tenThousandths_near (h : n < 2 ^ 53) :
    100 * tenThousandths n ≤ n + 50 ∧ n ≤ 100 * tenThousandths n + 50 := by
  have hseconds := Ratio.double_dividedBy_near (m := 1000000) (by decide) h
  have hden : 0 < ((Ratio.ofNat n).double.dividedBy 1000000).double.den :=
    ((Ratio.ofNat n).double.dividedBy 1000000).scale_pos
  rw [tenThousandths]
  generalize ((Ratio.ofNat n).double.dividedBy 1000000).double = x at hseconds hden ⊢
  obtain ⟨hup, hdown⟩ := Ratio.nearest_near (x := x.times 10000) hden
  change 2 * (_ * x.den) ≤ 2 * (x.num * 10000) + x.den at hup
  change 2 * (x.num * 10000) ≤ 2 * (_ * x.den) + x.den at hdown
  generalize (x.times 10000).nearest = units at hup hdown ⊢
  have hupper : 100 * units * x.den < (n + 51) * x.den := by
    rw [Nat.mul_assoc, Nat.add_mul]
    omega
  have hlower : n * x.den < (100 * units + 51) * x.den := by
    rw [Nat.add_mul, Nat.mul_assoc]
    omega
  have hup := Nat.lt_of_mul_lt_mul_right hupper
  have hdown := Nat.lt_of_mul_lt_mul_right hlower
  omega

/-- At double length 150 microseconds are a little less than that. -/
example : seconds 150 = "0.0001" := by decide +kernel

theorem solid_name (scheme : Scheme) : Solid scheme.name := by
  cases scheme with
  | mutex => decide
  | rwlock => decide
  | writerFirst lock =>
      have h : Solid "c-rw-wp" := by decide
      exact h
  | lockFree => decide

/-- The row of a report shows it. -/
theorem shows_ofReport {r : Report} (h : Solid r.contender) :
    Shows (ofReport r) r.contender r.threads r.reads r.writes := by
  have hfields : fields (ofReport r) = [r.contender, toString r.threads, toString r.reads,
      toString r.writes, seconds r.micros] := by
    apply fields_row (List.cons_ne_nil _ _)
    simp only [List.forall_mem_cons]
    exact ⟨h, solid_toString _, solid_toString _, solid_toString _, solid_seconds _,
      fun _ h => by cases h⟩
  constructor <;> rw [hfields]
  · rfl
  · rfl
  · rfl
  · exact Numeral.value?_toString r.threads
  · exact Numeral.value?_toString r.reads
  · exact Numeral.value?_toString r.writes

end ReaderWriter.Table
