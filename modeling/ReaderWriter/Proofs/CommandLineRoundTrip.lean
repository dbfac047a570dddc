import ReaderWriter.Proofs.CommandLine.Entered
import ReaderWriter.Proofs.CommandLine.Refusal

/-!
# Settings and command lines

Settings can be written on a command line in many ways: the options may stand anywhere among
the three numerals, in any order, and their values may be attached to them or not. All of
them are read as the settings they were written from. What is read from any arguments at all
is within the ranges, and a numeral that is not makes the line refused wherever it stands.
-/

namespace ReaderWriter.CommandLine

open Item (number? workload? seed? enter)

variable {r : Reading} {items : List Item} {s : Settings} {numbers : List String} {text : String}
variable {w? : Option Workload} {written? : Option String}

/-- The items write some numerals in this order, and the workload and the seed wherever they
like, but once if at all. -/
structure Layout (items : List Item) (numbers : List String) (w? : Option Workload)
    (written? : Option String) : Prop where
  numbers : items.filterMap number? = numbers
  workload : items.filterMap workload? = w?.toList
  seed : items.filterMap seed? = written?.toList

/-- What is laid out is read by entering the items one after another. -/
theorem parse_items (hplain : ∀ item ∈ items, item.IsPlain)
    (hfew : (items.filterMap number?).length ≤ Slot.positional.length) :
    parse (items.flatMap Item.arguments) =
      items.foldlM enter .start >>= fun r => r.draft.settings := by
  have hstart : Reading.Stands .start := ⟨rfl, fun slot h => by cases h⟩
  have hread := Item.foldlM_items hstart hplain hfew
  have hparse : parse (items.flatMap Item.arguments) =
      ((items.flatMap Item.arguments).foldlM Reading.next .start >>= Reading.settle) >>=
        fun r => r.draft.settings := (bind_assoc _ _ _).symm
  rw [hparse, hread]
  rfl

namespace Layout

theorem mem_numbers (hl : Layout items numbers w? written?) (h : .number text ∈ items) :
    text ∈ numbers := by
  rw [← hl.numbers]
  exact List.mem_filterMap.mpr ⟨_, h, rfl⟩

theorem mem_seed {attached : Bool} (hl : Layout items numbers w? written?)
    (h : .seed text attached ∈ items) : written? = some text := by
  have hmem : text ∈ items.filterMap seed? := List.mem_filterMap.mpr ⟨_, h, rfl⟩
  rw [hl.seed] at hmem
  exact Option.mem_toList.mp hmem

/-- Items say something plain if all numerals do. -/
theorem isPlain (hl : Layout items numbers w? written?)
    (hnumbers : ∀ text ∈ numbers, text.toList.head? ≠ some '-')
    (hseed : ∀ text, written? = some text → text.toList.head? ≠ some '-') :
    ∀ item ∈ items, item.IsPlain := by
  intro item hitem
  cases item with
  | number text => exact hnumbers text (hl.mem_numbers hitem)
  | workload w attached => exact trivial
  | seed text attached =>
      cases attached with
      | true => exact trivial
      | false => exact hseed text (hl.mem_seed hitem)

/-- The workload that is laid out is the one that is entered. -/
theorem workload_of (hl : Layout items numbers w? written?) (h : Entered items r) :
    r.draft.workload? = w? := by
  rw [h.workload, hl.workload, Option.head?_toList]

/-- The numerals of settings that are in range say what the settings are. -/
theorem sayable (hl : Layout items
      [toString s.threads, toString s.ops, toString s.writePercent] w? (s.seed?.map toString))
    (hs : s.InRange) : Sayable items where
  few := by rw [hl.numbers]; rfl
  numbers := by
    intro i slot text hslot htext
    rw [hl.numbers] at htext
    match i with
    | 0 =>
        cases hslot
        cases htext
        exact ⟨_, Numeral.ofSlot_toString hs.threads⟩
    | 1 =>
        cases hslot
        cases htext
        exact ⟨_, Numeral.ofSlot_toString hs.ops⟩
    | 2 =>
        cases hslot
        cases htext
        exact ⟨_, Numeral.ofSlot_toString hs.writePercent⟩
    | i + 3 => cases hslot
  oneWorkload := by rw [hl.workload]; exact Option.length_toList_le
  oneSeed := by rw [hl.seed]; exact Option.length_toList_le
  seed := by
    intro text htext
    rw [hl.seed, Option.mem_toList, Option.map_eq_some_iff] at htext
    obtain ⟨n, hn, rfl⟩ := htext
    exact ⟨n, Numeral.ofSlot_toString (hs.seed n hn)⟩

/-- Settings that are laid out, their numbers in plain decimal, are read again. -/
theorem parse_eq (hl : Layout items
      [toString s.threads, toString s.ops, toString s.writePercent] w? (s.seed?.map toString))
    (hw : w?.getD .all = s.workload) (hs : s.InRange) :
    parse (items.flatMap Item.arguments) = .ok s := by
  have hsay := hl.sayable hs
  have hplain : ∀ item ∈ items, item.IsPlain := by
    refine hl.isPlain ?_ ?_
    · simp only [List.forall_mem_cons]
      exact ⟨Numeral.head?_toString_ne _, Numeral.head?_toString_ne _,
        Numeral.head?_toString_ne _, fun _ h => by cases h⟩
    · intro text htext
      obtain ⟨n, -, rfl⟩ := Option.map_eq_some_iff.mp htext
      exact Numeral.head?_toString_ne n
  obtain ⟨r, hread⟩ := Entered.start.exists_foldlM hsay
  have hall : Entered items r := Entered.start.foldlM hread
  rw [parse_items hplain hsay.few]
  refine bind_eq_ok_iff.mpr ⟨r, hread, Draft.settings_eq_ok_iff.mpr ⟨?_, ?_, ?_, ?_, ?_⟩⟩
  · exact hall.number_eq 0 .threads rfl (by rw [hl.numbers]; rfl) hs.threads
  · exact hall.number_eq 1 .ops rfl (by rw [hl.numbers]; rfl) hs.ops
  · exact hall.number_eq 2 .writePercent rfl (by rw [hl.numbers]; rfl) hs.writePercent
  · rw [hl.workload_of hall, hw]
  · have hhead : (items.filterMap seed?).head? = s.seed?.map toString := by
      rw [hl.seed, Option.head?_toList]
    cases hseed : s.seed? with
    | none =>
        rw [hseed] at hhead
        exact hall.seed_eq_none hhead
    | some n =>
        rw [hseed] at hhead
        obtain ⟨m, means, hm⟩ := hall.seed_of hhead
        cases means.symm.trans (Numeral.ofSlot_toString (hs.seed n hseed))
        exact hm

end Layout

/-- Numbers that numerals write, whether they are in range or not. -/
structure Values where
  threads : Int
  ops : Int
  writePercent : Int
  seed? : Option Int
deriving DecidableEq

namespace Values

variable {values : Values}

/-- All numbers are such as their slots take. -/
structure InRange (values : Values) : Prop where
  threads : Slot.threads.Admits values.threads
  ops : Slot.ops.Admits values.ops
  writePercent : Slot.writePercent.Admits values.writePercent
  seed : ∀ v, values.seed? = some v → Slot.seed.Admits v

/-- The texts are numerals of the numbers. -/
structure Written (values : Values) (numbers : List String) (written? : Option String) : Prop where
  numbers : numbers.map Numeral.value? =
    [some values.threads, some values.ops, some values.writePercent]
  seed : written?.map Numeral.value? = values.seed?.map some

theorem Written.few (hv : values.Written numbers written?) :
    numbers.length = Slot.positional.length := by
  have hlength := congrArg List.length hv.numbers
  rwa [List.length_map] at hlength

theorem Written.value_of (hv : values.Written numbers written?) {i : Nat} {v : Int}
    (hi : [some values.threads, some values.ops, some values.writePercent][i]? = some (some v)) :
    numbers[i]?.map Numeral.value? = some (some v) := by
  rw [← List.getElem?_map, hv.numbers, hi]

/-- What is laid out from numerals is made of numerals. -/
theorem Written.isNumeral (hv : values.Written numbers written?)
    (hl : Layout items numbers w? written?) : ∀ item ∈ items, item.IsNumeral := by
  intro item hitem
  cases item with
  | number text =>
      have hmem := List.mem_map_of_mem (f := Numeral.value?) (hl.mem_numbers hitem)
      rw [hv.numbers] at hmem
      simp only [List.mem_cons, List.not_mem_nil, or_false] at hmem
      obtain h | h | h := hmem <;> exact ⟨_, h⟩
  | workload w attached => exact trivial
  | seed text attached =>
      have hseed := hv.seed
      rw [hl.mem_seed hitem, Option.map_some] at hseed
      obtain ⟨v, -, h⟩ := Option.map_eq_some_iff.mp hseed.symm
      exact ⟨v, h.symm⟩

/-- What could be entered is in range. -/
theorem Written.inRange (hv : values.Written numbers written?)
    (hl : Layout items numbers w? written?) (h : Entered items r) : values.InRange := by
  constructor
  · exact h.admits 0 .threads rfl (by rw [hl.numbers]; exact hv.value_of rfl)
  · exact h.admits 1 .ops rfl (by rw [hl.numbers]; exact hv.value_of rfl)
  · exact h.admits 2 .writePercent rfl (by rw [hl.numbers]; exact hv.value_of rfl)
  · intro v hseed
    have hvalue := hv.seed
    rw [hseed, Option.map_some] at hvalue
    obtain ⟨text, htext, hvalue⟩ := Option.map_eq_some_iff.mp hvalue
    obtain ⟨n, means, -⟩ := h.seed_of (by rw [hl.seed, Option.head?_toList, htext])
    obtain ⟨hn, hadmits⟩ := Numeral.of_ofSlot means
    cases hvalue.symm.trans hn
    exact hadmits

/-- With a number out of range, a line is refused. -/
theorem Written.refused (hv : values.Written numbers written?)
    (hl : Layout items numbers w? written?) (hout : ¬values.InRange) :
    ∃ fault, parse (items.flatMap Item.arguments) = .error (.fault fault) := by
  have hfew : (items.filterMap number?).length ≤ Slot.positional.length := by
    rw [hl.numbers, hv.few]
  by_cases hplain : ∀ item ∈ items, item.IsPlain
  · rw [parse_items hplain hfew]
    have hblames : Blames (items.foldlM enter .start >>= fun r => r.draft.settings) :=
      .bind (Item.foldlM_enter_blames _ _) fun r _ => r.draft.settings_blames
    refine hblames.refused fun s hs => ?_
    obtain ⟨r, hread, -⟩ := bind_eq_ok_iff.mp hs
    exact hout (hv.inRange hl (Entered.start.foldlM hread))
  · have hstart : Reading.Stands .start := ⟨rfl, fun slot h => by cases h⟩
    obtain ⟨fault, hread⟩ :=
      Item.refused_of_exists_not_isPlain hstart (hv.isNumeral hl) hfew hplain
    exact ⟨fault, by rw [parse, hread]; rfl⟩

end Values

/-- The command line takes exactly its settings. What it reads from any arguments is in range;
settings that are in range are read from every line that they are laid out on; and a line on
which a number is out of range is refused. -/
theorem command_line_exact :
    (∀ arguments s, parse arguments = .ok s → s.InRange) ∧
    (∀ (s : Settings) (w? : Option Workload) (items : List Item), s.InRange →
      w?.getD .all = s.workload →
      Layout items [toString s.threads, toString s.ops, toString s.writePercent] w?
        (s.seed?.map toString) →
      parse (items.flatMap Item.arguments) = .ok s) ∧
    ∀ (values : Values) (numbers : List String) (w? : Option Workload)
      (written? : Option String) (items : List Item), values.Written numbers written? →
      ¬values.InRange → Layout items numbers w? written? →
      ∃ fault, parse (items.flatMap Item.arguments) = .error (.fault fault) :=
  ⟨fun _ _ h => parse_inRange h, fun _ _ _ hs hw hl => hl.parse_eq hw hs,
    fun _ _ _ _ _ hv hout hl => hv.refused hl hout⟩

/-- The seed may stand first and the workload last, and nothing is read behind the greatest
number of threads. -/
theorem command_line_exact_edges :
    parse ["--seed=7", "65535", "1000", "30", "--workload", "queue"] =
        .ok ⟨65535, 1000, 30, .queue, some 7⟩ ∧
      ∃ fault, parse ["--seed=7", "65536", "1000", "30", "--workload", "queue"] =
        .error (.fault fault) := by
  obtain ⟨-, complete, tight⟩ := command_line_exact
  constructor
  · refine complete ⟨65535, 1000, 30, .queue, some 7⟩ (some .queue)
      [.seed "7" true, .number "65535", .number "1000", .number "30", .workload .queue false]
      ⟨by decide, by decide, by decide, ?_⟩ rfl ⟨rfl, rfl, rfl⟩
    rintro n ⟨⟩
    decide
  · refine tight ⟨65536, 1000, 30, some 7⟩ ["65536", "1000", "30"] (some .queue) (some "7")
      [.seed "7" true, .number "65536", .number "1000", .number "30", .workload .queue false]
      ⟨by decide, by decide⟩ (fun h => ?_) ⟨rfl, rfl, rfl⟩
    exact absurd h.threads (by decide)

end ReaderWriter.CommandLine
