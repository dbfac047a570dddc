import ReaderWriter.Proofs.CommandLine.Layout

/-!
# What has been entered

Items that are entered one after another fill the slots of a draft. At every stage a slot that
goes by its place holds what the numeral in this place says, and the named slots hold what was
said with their names. As long as nothing is wrong with an item it can be entered.
-/

namespace ReaderWriter.CommandLine

open Item (number? workload? seed?)

variable {r r' : Reading} {front rest items : List Item} {item : Item}
variable {text : String} {v : Int}

/-! ## Places -/

theorem Slot.of_mem_positional {slot : Slot} (h : slot ∈ positional) :
    slot ≠ .workload ∧ slot ≠ .seed := by
  cases slot <;> simp [positional] at h ⊢

/-- No slot has two places. -/
theorem Slot.place_inj {slot : Slot} {i j : Nat} (hi : positional[i]? = some slot)
    (hj : positional[j]? = some slot) : i = j := by
  obtain ⟨hlt, -⟩ := List.getElem?_eq_some_iff.mp hi
  exact (List.getElem?_inj hlt (by decide)).mp (hi.trans hj.symm)

/-- A numeral takes the next place, and its slot is filled. -/
theorem Item.enter_number_eq_ok_iff : (number text).enter r = .ok r' ↔
    ∃ slot places d, r.places = slot :: places ∧ Draft.Fills r.draft text slot d ∧
      { r with draft := d, places } = r' := by
  simp only [Item.enter]
  constructor
  · intro h
    split at h
    · cases h
    · next slot places hplaces =>
        obtain ⟨d, hfill, h⟩ := bind_eq_ok_iff.mp h
        cases h
        exact ⟨slot, places, d, hplaces, Draft.fill_eq_ok_iff.mp hfill, rfl⟩
  · rintro ⟨slot, places, d, hplaces, hfills, rfl⟩
    rw [hplaces]
    exact bind_eq_ok_iff.mpr ⟨d, Draft.fill_eq_ok_iff.mpr hfills, rfl⟩

/-! ## What the draft shows -/

/-- A slot holds the number that a text says, or is empty if there is none. -/
def Says (slot : Slot) (text? : Option String) (n? : Option Nat) : Prop :=
  Option.Rel (fun text n => Numeral.ofSlot slot text = .ok n) text? n?

namespace Says

variable {slot : Slot} {text? : Option String} {n? : Option Nat}

theorem of_some (h : Says slot (some text) n?) :
    ∃ n, Numeral.ofSlot slot text = .ok n ∧ n? = some n := by
  cases h with
  | some means => exact ⟨_, means, rfl⟩

theorem eq_none (h : Says slot none n?) : n? = none := by
  cases h
  rfl

theorem text_eq_none (h : Says slot text? none) : text? = none := by
  cases h
  rfl

end Says

/-- The draft shows what the items so far have said: a slot that goes by its place what the
numeral in this place says. -/
structure Entered (front : List Item) (r : Reading) : Prop where
  places : r.places = Slot.positional.drop (front.filterMap number?).length
  numbers : ∀ (i : Nat) (slot : Slot), Slot.positional[i]? = some slot →
    Says slot (front.filterMap number?)[i]? (r.draft.number? slot)
  seed : Says .seed (front.filterMap seed?).head? (r.draft.number? .seed)
  workload : r.draft.workload? = (front.filterMap workload?).head?

theorem filterMap_concat_none {α : Type} (f : Item → Option α) (h : f item = none) :
    (front ++ [item]).filterMap f = front.filterMap f := by
  simp [h]

theorem filterMap_concat_some {α : Type} (f : Item → Option α) {a : α} (h : f item = some a) :
    (front ++ [item]).filterMap f = front.filterMap f ++ [a] := by
  simp [h]

namespace Entered

theorem start : Entered [] .start where
  places := rfl
  numbers := by
    intro i slot _
    cases slot <;> exact .none
  seed := .none
  workload := rfl

/-- A numeral is entered into the slot whose place it has. -/
theorem enter_number (h : Entered front r) (hitem : (Item.number text).enter r = .ok r') :
    Entered (front ++ [.number text]) r' := by
  obtain ⟨slot, places, d, hnext, hfills, rfl⟩ := Item.enter_number_eq_ok_iff.mp hitem
  have hdrop := hnext.symm.trans h.places
  have hslot : Slot.positional[(front.filterMap number?).length]? = some slot := by
    rw [← List.head?_drop, ← hdrop]
    rfl
  obtain ⟨hnumber, hseed⟩ := Slot.of_mem_positional (List.mem_of_getElem? hslot)
  obtain ⟨⟨n, means, hn⟩, hothers, hworkload⟩ := hfills.number hnumber
  constructor
  · rw [filterMap_concat_some number? rfl, List.length_append, List.length_singleton, ← List.drop_drop,
      ← hdrop]
    rfl
  · intro i other hi
    rw [filterMap_concat_some number? rfl]
    by_cases heq : i = (front.filterMap number?).length
    · subst heq
      cases hslot.symm.trans hi
      rw [List.getElem?_concat_length, hn]
      exact .some means
    · have hother : other ≠ slot := by
        rintro rfl
        exact heq (Slot.place_inj hi hslot)
      have hsame : (front.filterMap number? ++ [text])[i]? = (front.filterMap number?)[i]? := by
        grind
      rw [hothers other hother, hsame]
      exact h.numbers i other hi
  · rw [hothers .seed hseed.symm, filterMap_concat_none seed? rfl]
    exact h.seed
  · rw [hworkload, filterMap_concat_none workload? rfl]
    exact h.workload

/-- A workload is entered if none has been. -/
theorem enter_workload {w : Workload} {attached : Bool} (h : Entered front r)
    (hitem : (Item.workload w attached).enter r = .ok r') :
    Entered (front ++ [.workload w attached]) r' := by
  obtain ⟨d, hfill, hitem⟩ := bind_eq_ok_iff.mp hitem
  have hfills := Draft.fill_eq_ok_iff.mp hfill
  have hnumber := hfills.workload_number
  cases hitem
  constructor
  · rw [filterMap_concat_none number? rfl]
    exact h.places
  · intro i slot hi
    rw [hnumber slot, filterMap_concat_none number? rfl]
    exact h.numbers i slot hi
  · rw [hnumber .seed, filterMap_concat_none seed? rfl]
    exact h.seed
  · cases hfills with
    | workload free means =>
        rw [Workload.ofWord?_word] at means
        cases means
        rw [filterMap_concat_some workload? rfl, List.head?_append, ← h.workload, free]
        rfl

/-- A seed is entered if none has been. -/
theorem enter_seed {attached : Bool} (h : Entered front r)
    (hitem : (Item.seed text attached).enter r = .ok r') :
    Entered (front ++ [.seed text attached]) r' := by
  obtain ⟨d, hfill, hitem⟩ := bind_eq_ok_iff.mp hitem
  have hfills := Draft.fill_eq_ok_iff.mp hfill
  obtain ⟨⟨n, means, hn⟩, hothers, hworkload⟩ := hfills.number (by decide)
  have hfree : r.draft.number? .seed = none := by
    cases hfills with
    | seed free _ => exact free
  cases hitem
  constructor
  · rw [filterMap_concat_none number? rfl]
    exact h.places
  · intro i slot hi
    obtain ⟨-, hother⟩ := Slot.of_mem_positional (List.mem_of_getElem? hi)
    rw [hothers slot hother, filterMap_concat_none number? rfl]
    exact h.numbers i slot hi
  · have hnone : (front.filterMap seed?).head? = none := by
      have hseed := h.seed
      rw [hfree] at hseed
      exact hseed.text_eq_none
    rw [filterMap_concat_some seed? rfl, List.head?_append, hnone, hn]
    exact .some means
  · rw [hworkload, filterMap_concat_none workload? rfl]
    exact h.workload

/-- An item that is entered says what is shown from then on. -/
theorem enter (h : Entered front r) (hitem : item.enter r = .ok r') :
    Entered (front ++ [item]) r' := by
  cases item with
  | number text => exact h.enter_number hitem
  | workload w attached => exact h.enter_workload hitem
  | seed text attached => exact h.enter_seed hitem

theorem foldlM (h : Entered front r) (hrest : rest.foldlM Item.enter r = .ok r') :
    Entered (front ++ rest) r' := by
  induction rest generalizing front r with
  | nil =>
      cases hrest
      rwa [List.append_nil]
  | cons item rest ih =>
      rw [List.foldlM_cons] at hrest
      obtain ⟨r₁, hitem, hrest⟩ := bind_eq_ok_iff.mp hrest
      have hall := ih (h.enter hitem) hrest
      rwa [List.append_assoc, List.singleton_append] at hall

end Entered

/-! ## Nothing is refused without a fault -/

/-- Nothing is wrong with the items: there are no more of them than slots, and every numeral
says a number for its slot. -/
structure Sayable (items : List Item) : Prop where
  few : (items.filterMap number?).length ≤ Slot.positional.length
  numbers : ∀ (i : Nat) (slot : Slot) (text : String), Slot.positional[i]? = some slot →
    (items.filterMap number?)[i]? = some text → ∃ n, Numeral.ofSlot slot text = .ok n
  oneWorkload : (items.filterMap workload?).length ≤ 1
  oneSeed : (items.filterMap seed?).length ≤ 1
  seed : ∀ text ∈ items.filterMap seed?, ∃ n, Numeral.ofSlot .seed text = .ok n

theorem Draft.exists_fills {d : Draft} {slot : Slot} {n : Nat}
    (h : Numeral.ofSlot slot text = .ok n) (hfree : slot = .seed → d.number? .seed = none) :
    ∃ d', Fills d text slot d' := by
  cases slot with
  | threads => exact ⟨_, .threads h⟩
  | ops => exact ⟨_, .ops h⟩
  | writePercent => exact ⟨_, .writePercent h⟩
  | workload => cases h
  | seed => exact ⟨_, .seed (hfree rfl) h⟩

/-- What comes before an item that occurs once at most does not contain another. -/
theorem filterMap_front_eq_nil {α : Type} (f : Item → Option α) {a : α} (hitem : f item = some a)
    (hone : ((front ++ item :: rest).filterMap f).length ≤ 1) : front.filterMap f = [] := by
  rw [List.filterMap_append, List.filterMap_cons_some hitem, List.length_append,
    List.length_cons] at hone
  exact List.eq_nil_of_length_eq_zero (by omega)

namespace Entered

theorem exists_enter (h : Entered front r) (hsay : Sayable (front ++ item :: rest)) :
    ∃ r', item.enter r = .ok r' := by
  cases item with
  | number text =>
      have hnumbers : (front ++ Item.number text :: rest).filterMap number? =
          front.filterMap number? ++ text :: rest.filterMap number? := by
        simp [number?]
      have hfew := hsay.few
      rw [hnumbers, List.length_append, List.length_cons] at hfew
      have hlt : (front.filterMap number?).length < Slot.positional.length := by omega
      have hslot := List.getElem?_eq_getElem hlt
      have hplaces := h.places
      rw [List.drop_eq_getElem_cons hlt] at hplaces
      obtain ⟨-, hseed⟩ := Slot.of_mem_positional (List.getElem_mem hlt)
      obtain ⟨n, means⟩ := hsay.numbers _ _ text hslot (by rw [hnumbers]; simp)
      obtain ⟨d, hfills⟩ := Draft.exists_fills means fun h => absurd h hseed
      exact ⟨_, Item.enter_number_eq_ok_iff.mpr ⟨_, _, d, hplaces, hfills, rfl⟩⟩
  | workload w attached =>
      have hfree : r.draft.workload? = none := by
        rw [h.workload, filterMap_front_eq_nil workload? rfl hsay.oneWorkload]
        rfl
      have hfill := Draft.fill_eq_ok_iff.mpr (.workload hfree (Workload.ofWord?_word w))
      exact ⟨_, bind_eq_ok_iff.mpr ⟨_, hfill, rfl⟩⟩
  | seed text attached =>
      have hfree : r.draft.number? .seed = none := by
        have hseed := h.seed
        rw [filterMap_front_eq_nil seed? rfl hsay.oneSeed] at hseed
        exact hseed.eq_none
      obtain ⟨n, means⟩ := hsay.seed text (by simp [seed?])
      obtain ⟨d, hfills⟩ := Draft.exists_fills means fun _ => hfree
      exact ⟨_, bind_eq_ok_iff.mpr ⟨_, Draft.fill_eq_ok_iff.mpr hfills, rfl⟩⟩

/-- Items that nothing is wrong with can be entered, all of them. -/
theorem exists_foldlM (h : Entered front r) (hsay : Sayable (front ++ rest)) :
    ∃ r', rest.foldlM Item.enter r = .ok r' := by
  induction rest generalizing front r with
  | nil => exact ⟨r, rfl⟩
  | cons item rest ih =>
      obtain ⟨r₁, hitem⟩ := h.exists_enter hsay
      obtain ⟨r', hrest⟩ := ih (h.enter hitem) (by rwa [List.append_assoc, List.singleton_append])
      exact ⟨r', by rw [List.foldlM_cons]; exact bind_eq_ok_iff.mpr ⟨r₁, hitem, hrest⟩⟩

/-- The slot that goes by the place of a numeral holds what it says. -/
theorem number_of (h : Entered items r) {i : Nat} {slot : Slot}
    (hslot : Slot.positional[i]? = some slot) (htext : (items.filterMap number?)[i]? = some text) :
    ∃ n, Numeral.ofSlot slot text = .ok n ∧ r.draft.number? slot = some n := by
  have hsays := h.numbers i slot hslot
  rw [htext] at hsays
  exact hsays.of_some

/-- A number in plain decimal is what its slot holds. -/
theorem number_eq (h : Entered items r) (i : Nat) (slot : Slot) {n : Nat}
    (hslot : Slot.positional[i]? = some slot)
    (htext : (items.filterMap number?)[i]? = some (toString n)) (hn : slot.Admits n) :
    r.draft.number? slot = some n := by
  obtain ⟨m, means, hm⟩ := h.number_of hslot htext
  cases means.symm.trans (Numeral.ofSlot_toString hn)
  exact hm

/-- A numeral that is entered writes a number that its slot takes. -/
theorem admits (h : Entered items r) (i : Nat) (slot : Slot)
    (hslot : Slot.positional[i]? = some slot)
    (htext : (items.filterMap number?)[i]?.map Numeral.value? = some (some v)) :
    slot.Admits v := by
  obtain ⟨text, htext, hvalue⟩ := Option.map_eq_some_iff.mp htext
  obtain ⟨n, means, -⟩ := h.number_of hslot htext
  obtain ⟨hn, hadmits⟩ := Numeral.of_ofSlot means
  cases hvalue.symm.trans hn
  exact hadmits

theorem seed_of (h : Entered items r) (htext : (items.filterMap seed?).head? = some text) :
    ∃ n, Numeral.ofSlot .seed text = .ok n ∧ r.draft.seed? = some n := by
  have hsays := h.seed
  rw [htext] at hsays
  exact hsays.of_some

theorem seed_eq_none (h : Entered items r) (hnone : (items.filterMap seed?).head? = none) :
    r.draft.seed? = none := by
  have hsays := h.seed
  rw [hnone] at hsays
  exact hsays.eq_none

end Entered

end ReaderWriter.CommandLine
