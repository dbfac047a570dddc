import ReaderWriter.Proofs.CommandLine.Layout

/-!
# Refused command lines

A reading ends without settings because of a fault, or because help or the version is asked
for. A command line that is laid out from numerals and options asks for neither, so when it
is refused there is a fault in it. A negative numeral that is not attached to a name is taken
for one, which nothing is known of.
-/

namespace ReaderWriter.CommandLine

variable {α β : Type} {x : Except Stop α} {f : α → Except Stop β}
variable {r r' : Reading} {d : Draft} {slot : Slot} {text name value : String} {item : Item}
variable {items : List Item} {v : Int}

/-- If something is refused, there is a fault in it. -/
def Blames (x : Except Stop α) : Prop :=
  ∀ stop, x = .error stop → ∃ fault, stop = .fault fault

namespace Blames

theorem ok (a : α) : Blames (.ok a) :=
  fun _ h => by cases h

theorem fault (fault : Fault) : Blames (.error (.fault fault) : Except Stop α) := by
  rintro stop ⟨⟩
  exact ⟨fault, rfl⟩

theorem bind (hx : Blames x) (hf : ∀ a, x = .ok a → Blames (f a)) : Blames (x >>= f) := by
  cases x with
  | error stop =>
      obtain ⟨fault, rfl⟩ := hx stop rfl
      exact Blames.fault fault
  | ok a => exact hf a rfl

theorem refused (hx : Blames x) (hnever : ∀ a, x ≠ .ok a) :
    ∃ fault, x = .error (.fault fault) := by
  cases x with
  | error stop =>
      obtain ⟨fault, rfl⟩ := hx stop rfl
      exact ⟨fault, rfl⟩
  | ok a => exact absurd rfl (hnever a)

end Blames

theorem Draft.numeral_blames (slot : Slot) (text : String) (r : Except NumeralFault Nat) :
    Blames (numeral slot text r) := by
  cases r with
  | error why => exact .fault _
  | ok n => exact .ok n

theorem Draft.fill_blames (d : Draft) (slot : Slot) (text : String) : Blames (d.fill slot text) := by
  cases slot with
  | threads | ops | writePercent =>
      exact .bind (numeral_blames _ _ _) fun _ _ => .ok _
  | workload =>
      rw [fill]
      split_ifs
      · exact .fault _
      · refine .bind ?_ fun _ _ => .ok _
        unfold choice
        split
        · exact .ok _
        · exact .fault _
  | seed =>
      rw [fill]
      split_ifs
      · exact .fault _
      · exact .bind (numeral_blames _ _ _) fun _ _ => .ok _

theorem Draft.settings_blames (d : Draft) : Blames d.settings := by
  unfold settings
  split
  · exact .ok _
  · exact .fault _

theorem Reading.settle_blames (r : Reading) : Blames r.settle := by
  unfold settle
  split
  · exact .ok _
  · exact .fault _
  · exact .bind (r.draft.fill_blames _ _) fun _ _ => .ok _

/-- Behind a minus a digit is taken for the letter of an option, and there is no such option. -/
theorem Reading.next_of_minus (hr : r.escaped = false) (hminus : text.toList.head? = some '-')
    (hvalue : Numeral.value? text = some v) : ∃ fault, r.next text = .error (.fault fault) := by
  obtain ⟨cs, htext⟩ := List.head?_eq_some_iff.mp hminus
  simp only [Numeral.value?, htext, Option.map_eq_some_iff] at hvalue
  obtain ⟨n, hrun, -⟩ := hvalue
  obtain ⟨⟨hne, hdigits⟩, -⟩ := Numeral.run?_eq_some_iff.mp hrun
  obtain ⟨c, rest, rfl⟩ := List.exists_cons_of_ne_nil hne
  have hdigit : c.isDigit = true := hdigits c List.mem_cons_self
  have hother : ∀ d : Char, ¬d.isDigit = true → c ≠ d := fun d hd h => hd (h ▸ hdigit)
  refine ⟨.unexpected s!"-{c}", ?_⟩
  simp only [next, hr, Bool.false_eq_true, if_false,
    Word.ofArgument_short htext (hother '-' (by decide)), short,
    if_neg (hother 'h' (by decide)), if_neg (hother 'V' (by decide))]

namespace Item

/-- What should be a numeral is one, whatever its value. -/
def IsNumeral : Item → Prop
  | number text | seed text _ => ∃ v, Numeral.value? text = some v
  | workload _ _ => True

theorem enter_blames (r : Reading) (item : Item) : Blames (item.enter r) := by
  cases item with
  | number text =>
      simp only [enter]
      split
      · exact .fault _
      · exact .bind (Draft.fill_blames _ _ _) fun _ _ => .ok _
  | workload w attached => exact .bind (Draft.fill_blames _ _ _) fun _ _ => .ok _
  | seed text attached => exact .bind (Draft.fill_blames _ _ _) fun _ _ => .ok _

theorem foldlM_enter_blames (items : List Item) (r : Reading) : Blames (items.foldlM enter r) := by
  induction items generalizing r with
  | nil => exact .ok r
  | cons item rest ih =>
      rw [List.foldlM_cons]
      exact .bind (enter_blames r item) fun r' _ => ih r'

theorem Enters.blames (h : Enters r item) : Blames (item.arguments.foldlM Reading.next r) := by
  intro stop hstop
  have hsettle := h.settle
  rw [hstop] at hsettle
  exact Blames.bind r.settle_blames (fun r₁ _ => enter_blames r₁ item) stop hsettle.symm

/-- An item with a minus in front is refused where it stands. -/
theorem refused_of_not_isPlain (hr : r.Stands) (hvalue : item.IsNumeral) (hminus : ¬item.IsPlain) :
    ∃ fault, item.arguments.foldlM Reading.next r = .error (.fault fault) := by
  cases item with
  | number text =>
      obtain ⟨v, hv⟩ := hvalue
      obtain ⟨fault, hnext⟩ := Reading.next_of_minus hr.unescaped (not_not.mp hminus) hv
      exact ⟨fault, by rw [arguments, List.foldlM_cons, hnext]; rfl⟩
  | workload w attached => exact absurd trivial hminus
  | seed text attached =>
      obtain ⟨v, hv⟩ := hvalue
      cases attached with
      | true => exact absurd trivial hminus
      | false =>
          have hread : (arguments (seed text false)).foldlM Reading.next r =
              r.next ("--" ++ "seed") >>= fun r₁ => r₁.next text := by
            simp only [arguments, option, List.foldlM_cons, List.foldlM_nil, bind_pure]
          rw [hread, Reading.next_name hr rfl (by decide) (by decide)]
          cases hsettle : r.settle with
          | error stop =>
              obtain ⟨fault, rfl⟩ := r.settle_blames stop hsettle
              exact ⟨fault, rfl⟩
          | ok r₁ =>
              obtain ⟨-, -, hescaped⟩ := Reading.settle_eq_ok hsettle
              exact Reading.next_of_minus (r := { r₁ with pending := some (.seed, none) })
                (hescaped.trans hr.unescaped) (not_not.mp hminus) hv

theorem refused_of_exists_not_isPlain (hr : r.Stands) (hvalue : ∀ item ∈ items, item.IsNumeral)
    (hfew : (items.filterMap number?).length ≤ r.places.length)
    (hminus : ¬∀ item ∈ items, item.IsPlain) :
    ∃ fault, (items.flatMap arguments).foldlM Reading.next r = .error (.fault fault) := by
  induction items generalizing r with
  | nil => exact absurd (fun _ h => by cases h) hminus
  | cons item rest ih =>
      rw [length_numbers_cons] at hfew
      rw [List.flatMap_cons, List.foldlM_append]
      by_cases hitem : item.IsPlain
      · have henters : Enters r item := enters hr hitem (by omega)
        have hrest : ¬∀ other ∈ rest, other.IsPlain := by
          intro hall
          exact hminus (List.forall_mem_cons.mpr ⟨hitem, hall⟩)
        cases hread : item.arguments.foldlM Reading.next r with
        | error stop =>
            obtain ⟨fault, rfl⟩ := henters.blames stop hread
            exact ⟨fault, rfl⟩
        | ok r' =>
            obtain ⟨hstands, hplaces⟩ := henters.stands r' hread
            exact ih hstands (fun other hother => hvalue other (List.mem_cons_of_mem _ hother))
              (by omega) hrest
      · obtain ⟨fault, hread⟩ :=
          refused_of_not_isPlain hr (hvalue item List.mem_cons_self) hitem
        exact ⟨fault, by rw [hread]; rfl⟩

end Item

end ReaderWriter.CommandLine
