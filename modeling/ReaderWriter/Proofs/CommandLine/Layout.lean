import ReaderWriter.Proofs.CommandLine.Reading

/-!
# Command lines that are laid out

A command line may be put together from numerals, which go by their place, and options with
their values. An option may have its value attached to its name or in the argument after it,
and options and numerals may stand in any order.

Reading puts a value aside and looks at it when the next one comes. In what is laid out this
cannot be observed: it comes to the same, the blame for a faulty value included, as looking
at each value at once.
-/

namespace ReaderWriter.CommandLine

/-- One thing on a command line. -/
inductive Item where
  /-- A numeral for the next place. -/
  | number (text : String)
  /-- The workload by its word, which may be attached to the name. -/
  | workload (w : Workload) (attached : Bool)
  /-- The numeral of a seed, which may be attached to the name. -/
  | seed (text : String) (attached : Bool)
deriving DecidableEq

namespace Item

/-- The arguments that an option takes. -/
def option (name value : String) : Bool → List String
  | true => ["--" ++ name ++ "=" ++ value]
  | false => ["--" ++ name, value]

/-- The arguments that an item takes. -/
def arguments : Item → List String
  | number text => [text]
  | workload w attached => option "workload" w.word attached
  | seed text attached => option "seed" text attached

/-- The numeral, if the item goes by its place. -/
def number? : Item → Option String
  | number text => some text
  | _ => none

def workload? : Item → Option Workload
  | workload w _ => some w
  | _ => none

def seed? : Item → Option String
  | seed text _ => some text
  | _ => none

/-- No argument of the item could be taken for a name. -/
def IsPlain : Item → Prop
  | number text | seed text false => text.toList.head? ≠ some '-'
  | _ => True

/-- Enters an item into the draft at once. -/
def enter (r : Reading) : Item → Except Stop Reading
  | number text =>
    match r.places with
    | [] => .error (.fault (.unexpected text))
    | slot :: places => do
      let draft ← r.draft.fill slot text
      return { r with draft, places }
  | workload w _ => do
    let draft ← r.draft.fill .workload w.word
    return { r with draft }
  | seed text _ => do
    let draft ← r.draft.fill .seed text
    return { r with draft }

end Item

variable {r r' r₁ : Reading} {slot : Slot} {text name value : String} {item : Item}
variable {items : List Item}

/-! ## Forms of arguments -/

theorem Word.ofArgument_plain (h : text.toList.head? ≠ some '-') :
    Word.ofArgument text = .plain := by
  unfold ofArgument
  split
  · next htext => exact absurd (by rw [htext]; rfl) h
  · next htext => exact absurd (by rw [htext]; rfl) h
  · next htext => exact absurd (by rw [htext]; rfl) h
  · rfl

theorem Word.ofArgument_short {c : Char} {cs : List Char} (h : text.toList = '-' :: c :: cs)
    (hc : c ≠ '-') : Word.ofArgument text = .short c := by
  simp [ofArgument, h, hc]

theorem Word.decide_ne_of_notMem (hname : '=' ∉ name.toList) :
    ∀ c ∈ name.toList, decide (c ≠ '=') = true := by
  intro c hc
  exact decide_eq_true fun h => hname (h ▸ hc)

/-- A name by itself. -/
theorem Word.ofArgument_name (hne : name.toList ≠ []) (hname : '=' ∉ name.toList) :
    Word.ofArgument ("--" ++ name) = .long name none := by
  have htext : ("--" ++ name).toList = '-' :: '-' :: name.toList := by
    rw [String.toList_append]
    rfl
  have hall := decide_ne_of_notMem hname
  simp only [ofArgument, htext, List.takeWhile_eq_self_iff.mpr hall,
    List.dropWhile_eq_nil_iff.mpr hall, String.ofList_toList]

/-- A name and all that is attached to it. -/
theorem Word.ofArgument_attached (value : String) (hname : '=' ∉ name.toList) :
    Word.ofArgument ("--" ++ name ++ "=" ++ value) = .long name (some value) := by
  have htext : ("--" ++ name ++ "=" ++ value).toList =
      '-' :: '-' :: (name.toList ++ '=' :: value.toList) := by
    simp
  have hall := decide_ne_of_notMem hname
  have htake : (name.toList ++ '=' :: value.toList).takeWhile (· ≠ '=') = name.toList := by
    rw [List.takeWhile_append_of_pos hall, List.takeWhile_cons_of_neg (by simp), List.append_nil]
  have hdrop : (name.toList ++ '=' :: value.toList).dropWhile (· ≠ '=') =
      '=' :: value.toList := by
    rw [List.dropWhile_append_of_pos hall, List.dropWhile_cons_of_neg (by simp)]
  have hne : name.toList ++ '=' :: value.toList ≠ [] := by simp
  simp only [ofArgument, htext, htake, hdrop, String.ofList_toList]

/-! ## Reading an item -/

namespace Reading

/-- Nothing is open: the places still count, and no name waits for its value. -/
structure Stands (r : Reading) : Prop where
  unescaped : r.escaped = false
  served : ∀ slot, r.pending ≠ some (slot, none)

theorem settle_eq_ok (h : r.settle = .ok r₁) :
    r₁.pending = none ∧ r₁.places = r.places ∧ r₁.escaped = r.escaped := by
  unfold settle at h
  split at h
  · next hnone =>
      cases h
      exact ⟨hnone, rfl, rfl⟩
  · cases h
  · obtain ⟨d, -, h⟩ := bind_eq_ok_iff.mp h
    cases h
    exact ⟨rfl, rfl, rfl⟩

theorem next_of_plain (hr : r.escaped = false) (h : text.toList.head? ≠ some '-') :
    r.next text = r.value text := by
  simp only [next, hr, Bool.false_eq_true, if_false, Word.ofArgument_plain h]

/-- A numeral for the next place is put aside. -/
theorem next_number {places : List Slot} (hr : r.Stands) (hplaces : r.places = slot :: places)
    (h : text.toList.head? ≠ some '-') :
    r.next text =
      r.settle >>= fun r₁ => .ok { r₁ with places, pending := some (slot, some text) } := by
  rw [next_of_plain hr.unescaped h, value, place, hplaces]
  split
  · next slot' hpending => exact absurd hpending (hr.served slot')
  · rfl

/-- A value that is attached to a name is looked at when what was put aside is settled. -/
theorem next_attached (hr : r.Stands) (hslot : Slot.ofName? name = some slot)
    (hname : '=' ∉ name.toList) (value : String) :
    r.next ("--" ++ name ++ "=" ++ value) =
      r.settle >>= fun r₁ => r₁.draft.fill slot value >>= fun draft => .ok { r₁ with draft } := by
  simp only [next, hr.unescaped, Bool.false_eq_true, if_false, Word.ofArgument_attached value hname,
    long, hslot]
  rfl

/-- A name by itself waits for its value. -/
theorem next_name (hr : r.Stands) (hslot : Slot.ofName? name = some slot)
    (hne : name.toList ≠ []) (hname : '=' ∉ name.toList) :
    r.next ("--" ++ name) =
      r.settle >>= fun r₁ => .ok { r₁ with pending := some (slot, none) } := by
  simp only [next, hr.unescaped, Bool.false_eq_true, if_false, Word.ofArgument_name hne hname,
    long, hslot]
  rfl

/-- The value behind a name is put aside. -/
theorem next_name_next (hr : r.Stands) (hslot : Slot.ofName? name = some slot)
    (hne : name.toList ≠ []) (hname : '=' ∉ name.toList) (h : value.toList.head? ≠ some '-') :
    (r.next ("--" ++ name) >>= fun r => r.next value) =
      r.settle >>= fun r₁ => .ok { r₁ with pending := some (slot, some value) } := by
  rw [next_name hr hslot hne hname]
  cases hsettle : r.settle with
  | error stop => rfl
  | ok r₁ =>
      obtain ⟨-, -, hescaped⟩ := settle_eq_ok hsettle
      exact next_of_plain (r := { r₁ with pending := some (slot, none) })
        (hescaped.trans hr.unescaped) h

end Reading

namespace Item

open Reading (Stands settle)

/-- What an item leaves: its value is put aside or in the draft already, and nothing is open. -/
structure Enters (r : Reading) (item : Item) : Prop where
  /-- Settling what has been read is the same as settling first and entering the item. -/
  settle : (item.arguments.foldlM Reading.next r >>= Reading.settle) =
    r.settle >>= fun r₁ => item.enter r₁
  stands : ∀ r', item.arguments.foldlM Reading.next r = .ok r' →
    r'.Stands ∧ r'.places.length + (item.number?.toList).length = r.places.length

theorem enters_of_aside (slot : Slot) (text : String) (places : List Slot) (hr : r.Stands)
    (hread : item.arguments.foldlM Reading.next r =
      r.settle >>= fun r₁ => .ok { r₁ with places, pending := some (slot, some text) })
    (henter : ∀ r₁, r.settle = .ok r₁ → item.enter r₁ =
      r₁.draft.fill slot text >>= fun draft => .ok { r₁ with draft, places })
    (hplaces : places.length + (item.number?.toList).length = r.places.length) :
    Enters r item := by
  constructor
  · rw [hread]
    cases hsettle : r.settle with
    | error stop => rfl
    | ok r₁ =>
        obtain ⟨hpending, -, -⟩ := Reading.settle_eq_ok hsettle
        change (r₁.draft.fill slot text >>= fun draft => _) = item.enter r₁
        rw [henter r₁ hsettle, ← hpending]
        rfl
  · intro r' h
    rw [hread] at h
    obtain ⟨r₁, hsettle, h⟩ := bind_eq_ok_iff.mp h
    obtain ⟨-, -, hescaped⟩ := Reading.settle_eq_ok hsettle
    cases h
    exact ⟨⟨hescaped.trans hr.unescaped, fun slot' h => by cases h⟩, hplaces⟩

theorem enters_of_attached (hr : r.Stands)
    (hread : item.arguments.foldlM Reading.next r =
      r.settle >>= fun r₁ => r₁.draft.fill slot text >>= fun draft => .ok { r₁ with draft })
    (henter : ∀ r₁, item.enter r₁ =
      r₁.draft.fill slot text >>= fun draft => .ok { r₁ with draft })
    (hnumber : item.number? = none) : Enters r item := by
  have hafter : ∀ r', item.arguments.foldlM Reading.next r = .ok r' →
      r'.pending = none ∧ r'.places = r.places ∧ r'.escaped = r.escaped := by
    intro r' h
    rw [hread] at h
    obtain ⟨r₁, hsettle, h⟩ := bind_eq_ok_iff.mp h
    obtain ⟨d, -, h⟩ := bind_eq_ok_iff.mp h
    have hkept := Reading.settle_eq_ok hsettle
    cases h
    exact hkept
  constructor
  · simp only [henter]
    rw [← hread]
    cases h : item.arguments.foldlM Reading.next r with
    | error stop => rfl
    | ok r' =>
        -- With nothing put aside there is nothing to settle.
        change r'.settle = .ok r'
        rw [settle, (hafter r' h).1]
  · intro r' h
    obtain ⟨hpending, hplaces, hescaped⟩ := hafter r' h
    refine ⟨⟨hescaped.trans hr.unescaped, fun slot' h => ?_⟩, ?_⟩
    · rw [hpending] at h
      cases h
    · rw [hnumber, hplaces]
      rfl

/-- An option enters its value, whether this is attached to the name or not. -/
theorem enters_option (hr : r.Stands) {attached : Bool}
    (harguments : item.arguments = option name value attached)
    (henter : ∀ r₁, item.enter r₁ =
      r₁.draft.fill slot value >>= fun draft => .ok { r₁ with draft })
    (hnumber : item.number? = none) (hslot : Slot.ofName? name = some slot)
    (hne : name.toList ≠ []) (hname : '=' ∉ name.toList)
    (hplain : attached = false → value.toList.head? ≠ some '-') : Enters r item := by
  cases attached with
  | true =>
      refine enters_of_attached hr ?_ henter hnumber
      rw [harguments, option, List.foldlM_cons, Reading.next_attached hr hslot hname]
      simp only [List.foldlM_nil, bind_pure]
  | false =>
      refine enters_of_aside slot value r.places hr ?_ ?_ (by rw [hnumber]; rfl)
      · rw [harguments, option]
        simp only [List.foldlM_cons, List.foldlM_nil, bind_pure]
        rw [Reading.next_name_next hr hslot hne hname (hplain rfl)]
        cases hsettle : r.settle with
        | error stop => rfl
        | ok r₁ =>
            rw [← (Reading.settle_eq_ok hsettle).2.1]
            rfl
      · intro r₁ hsettle
        rw [henter, ← (Reading.settle_eq_ok hsettle).2.1]

/-- Whatever an item is, reading it puts a value aside or into the draft. -/
theorem enters (hr : r.Stands) (hplain : item.IsPlain)
    (hplace : (item.number?.toList).length ≤ r.places.length) : Enters r item := by
  cases item with
  | number text =>
      obtain ⟨slot, places, hplaces⟩ := List.exists_cons_of_length_pos hplace
      refine enters_of_aside slot text places hr ?_ ?_ (by rw [hplaces]; rfl)
      · rw [arguments, List.foldlM_cons, Reading.next_number hr hplaces hplain]
        simp only [List.foldlM_nil, bind_pure]
      · intro r₁ hsettle
        simp only [enter, (Reading.settle_eq_ok hsettle).2.1, hplaces]
        rfl
  | workload w attached =>
      exact enters_option hr rfl (fun _ => rfl) rfl rfl (by decide) (by decide)
        fun _ => by cases w <;> decide
  | seed text attached =>
      refine enters_option hr rfl (fun _ => rfl) rfl rfl (by decide) (by decide) ?_
      rintro rfl
      exact hplain

theorem length_numbers_cons (item : Item) (rest : List Item) :
    ((item :: rest).filterMap number?).length =
      (item.number?.toList).length + (rest.filterMap number?).length := by
  rw [List.filterMap_cons]
  cases item.number? <;> simp [Nat.add_comm]

/-- Items that are read one after another might as well be entered one after another. -/
theorem foldlM_items (hr : r.Stands) (hplain : ∀ item ∈ items, item.IsPlain)
    (hfew : (items.filterMap number?).length ≤ r.places.length) :
    ((items.flatMap arguments).foldlM Reading.next r >>= settle) =
      r.settle >>= fun r₁ => items.foldlM enter r₁ := by
  induction items generalizing r with
  | nil => exact (bind_pure r.settle).symm
  | cons item rest ih =>
      rw [length_numbers_cons] at hfew
      have henters : Enters r item :=
        enters hr (hplain item List.mem_cons_self) (by omega)
      rw [List.flatMap_cons, List.foldlM_append]
      simp only [List.foldlM_cons]
      rw [← bind_assoc r.settle, ← henters.settle]
      cases hread : item.arguments.foldlM Reading.next r with
      | error stop => rfl
      | ok r' =>
          obtain ⟨hstands, hplaces⟩ := henters.stands r' hread
          exact ih hstands (fun other hother => hplain other (List.mem_cons_of_mem _ hother))
            (by omega)

end Item

end ReaderWriter.CommandLine
