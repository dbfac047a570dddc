import ReaderWriter.CommandLine.Arguments
import ReaderWriter.Proofs.CommandLine.Numeral

/-!
# What has been read is in range

Whatever the arguments are, a value gets into the draft in one way only: a slot is filled
with it, and a slot is filled with numbers that it takes. So at every stage of the reading
all numbers of the draft are in range, and in the end those of the settings are.
-/

namespace ReaderWriter.CommandLine

/-- All numbers are such as their slots take. -/
structure Settings.InRange (s : Settings) : Prop where
  threads : Slot.threads.Admits s.threads
  ops : Slot.ops.Admits s.ops
  writePercent : Slot.writePercent.Admits s.writePercent
  seed : ∀ n, s.seed? = some n → Slot.seed.Admits n

/-- The number in a slot of a draft. -/
def Draft.number? (d : Draft) : Slot → Option Nat
  | .threads => d.threads?
  | .ops => d.ops?
  | .writePercent => d.writePercent?
  | .workload => none
  | .seed => d.seed?

/-- All numbers that are set so far are such as their slots take. -/
def Draft.InRange (d : Draft) : Prop :=
  ∀ slot n, d.number? slot = some n → slot.Admits n

variable {d d' : Draft} {slot : Slot} {text : String} {stop : Stop} {s : Settings}

/-! ## Filling a slot -/

namespace Draft

/-- A slot of a draft is filled with what a text says. What has a name must be free. -/
inductive Fills (d : Draft) (text : String) : Slot → Draft → Prop
  | threads {n : Nat} (means : Numeral.threads text = .ok n) :
      Fills d text .threads { d with threads? := some n }
  | ops {n : Nat} (means : Numeral.ops text = .ok n) :
      Fills d text .ops { d with ops? := some n }
  | writePercent {n : Nat} (means : Numeral.percent text = .ok n) :
      Fills d text .writePercent { d with writePercent? := some n }
  | workload {w : Workload} (free : d.workload? = none) (means : Workload.ofWord? text = some w) :
      Fills d text .workload { d with workload? := some w }
  | seed {n : Nat} (free : d.seed? = none) (means : Numeral.seed text = .ok n) :
      Fills d text .seed { d with seed? := some n }

theorem numeral_eq_ok_iff {r : Except NumeralFault Nat} {n : Nat} :
    numeral slot text r = .ok n ↔ r = .ok n := by
  cases r <;> simp [numeral, Except.mapError]

theorem choice_eq_ok_iff {w : Workload} : choice text = .ok w ↔ Workload.ofWord? text = some w := by
  unfold choice
  cases Workload.ofWord? text <;> simp

theorem fill_eq_ok_iff : d.fill slot text = .ok d' ↔ Fills d text slot d' := by
  constructor
  · intro h
    cases slot with
    | threads =>
        obtain ⟨n, hn, h⟩ := bind_eq_ok_iff.mp h
        cases h
        exact .threads (numeral_eq_ok_iff.mp hn)
    | ops =>
        obtain ⟨n, hn, h⟩ := bind_eq_ok_iff.mp h
        cases h
        exact .ops (numeral_eq_ok_iff.mp hn)
    | writePercent =>
        obtain ⟨n, hn, h⟩ := bind_eq_ok_iff.mp h
        cases h
        exact .writePercent (numeral_eq_ok_iff.mp hn)
    | workload =>
        rw [fill] at h
        split_ifs at h with hset
        obtain ⟨w, hw, h⟩ := bind_eq_ok_iff.mp h
        cases h
        exact .workload (by simpa using hset) (choice_eq_ok_iff.mp hw)
    | seed =>
        rw [fill] at h
        split_ifs at h with hset
        obtain ⟨n, hn, h⟩ := bind_eq_ok_iff.mp h
        cases h
        exact .seed (by simpa using hset) (numeral_eq_ok_iff.mp hn)
  · intro h
    cases h with
    | threads means => exact bind_eq_ok_iff.mpr ⟨_, numeral_eq_ok_iff.mpr means, rfl⟩
    | ops means => exact bind_eq_ok_iff.mpr ⟨_, numeral_eq_ok_iff.mpr means, rfl⟩
    | writePercent means => exact bind_eq_ok_iff.mpr ⟨_, numeral_eq_ok_iff.mpr means, rfl⟩
    | workload free means =>
        rw [fill, if_neg (by simp [free])]
        exact bind_eq_ok_iff.mpr ⟨_, choice_eq_ok_iff.mpr means, rfl⟩
    | seed free means =>
        rw [fill, if_neg (by simp [free])]
        exact bind_eq_ok_iff.mpr ⟨_, numeral_eq_ok_iff.mpr means, rfl⟩

/-- A slot for a number gets the number that the text says, and nothing else changes. -/
theorem Fills.number (h : Fills d text slot d') (hslot : slot ≠ .workload) :
    (∃ n, Numeral.ofSlot slot text = .ok n ∧ d'.number? slot = some n) ∧
      (∀ other, other ≠ slot → d'.number? other = d.number? other) ∧
      d'.workload? = d.workload? := by
  cases h with
  | workload => exact absurd rfl hslot
  | threads means | ops means | writePercent means | seed _ means =>
      exact ⟨⟨_, means, rfl⟩, fun other h => by cases other <;> simp [number?] at h ⊢, rfl⟩

theorem Fills.workload_number (h : Fills d text .workload d') (other : Slot) :
    d'.number? other = d.number? other := by
  cases h
  cases other <;> rfl

theorem Fills.inRange (h : Fills d text slot d') (hd : d.InRange) : d'.InRange := by
  intro other n hn
  by_cases hslot : slot = .workload
  · subst hslot
    exact hd other n ((h.workload_number other).symm.trans hn)
  · obtain ⟨⟨m, means, hm⟩, hothers, -⟩ := h.number hslot
    by_cases hother : other = slot
    · subst hother
      cases hm.symm.trans hn
      exact (Numeral.of_ofSlot means).2
    · exact hd other n ((hothers other hother).symm.trans hn)

theorem blank_inRange : blank.InRange := by
  intro slot n hn
  cases slot <;> cases hn

/-- The settings are what is in the draft. -/
theorem settings_eq_ok_iff : d.settings = .ok s ↔
    d.threads? = some s.threads ∧ d.ops? = some s.ops ∧ d.writePercent? = some s.writePercent ∧
      d.workload?.getD .all = s.workload ∧ d.seed? = s.seed? := by
  obtain ⟨threads?, ops?, writePercent?, workload?, seed?⟩ := d
  obtain ⟨threads, ops, writePercent, workload, seed⟩ := s
  cases threads? <;> cases ops? <;> cases writePercent? <;> simp [settings]

theorem InRange.settings (hd : d.InRange) (h : d.settings = .ok s) : s.InRange := by
  obtain ⟨hthreads, hops, hpercent, -, hseed⟩ := settings_eq_ok_iff.mp h
  exact ⟨hd .threads _ hthreads, hd .ops _ hops, hd .writePercent _ hpercent,
    fun n hn => hd .seed n (hseed.trans hn)⟩

end Draft

/-! ## Reading arguments -/

namespace Reading

variable {r r' : Reading} {argument name : String} {value? : Option String} {letter : Char}

/-- A value that was put aside has been looked at. -/
theorem settle_inRange (hr : r.draft.InRange) (h : r.settle = .ok r') : r'.draft.InRange := by
  rw [settle] at h
  split at h
  · cases h
    exact hr
  · cases h
  · obtain ⟨d, hfill, h⟩ := bind_eq_ok_iff.mp h
    cases h
    exact (Draft.fill_eq_ok_iff.mp hfill).inRange hr

theorem place_inRange (hr : r.draft.InRange) (h : r.place text = .ok r') : r'.draft.InRange := by
  rw [place] at h
  split at h
  · cases h
  · obtain ⟨r₁, hsettle, h⟩ := bind_eq_ok_iff.mp h
    have hdraft := settle_inRange hr hsettle
    cases h
    exact hdraft

theorem request_ne_ok (r : Reading) (stop : Stop) (r' : Reading) : r.request stop ≠ .ok r' := by
  intro h
  obtain ⟨-, -, h⟩ := bind_eq_ok_iff.mp h
  cases h

theorem long_inRange (hr : r.draft.InRange) (h : r.long name value? = .ok r') :
    r'.draft.InRange := by
  unfold long at h
  split at h
  · obtain ⟨r₁, hsettle, h⟩ := bind_eq_ok_iff.mp h
    have hdraft := settle_inRange hr hsettle
    cases h
    exact hdraft
  · obtain ⟨r₁, hsettle, h⟩ := bind_eq_ok_iff.mp h
    obtain ⟨d, hfill, h⟩ := bind_eq_ok_iff.mp h
    have hdraft := (Draft.fill_eq_ok_iff.mp hfill).inRange (settle_inRange hr hsettle)
    cases h
    exact hdraft
  · split at h
    · split at h
      · cases h
      · exact absurd h (request_ne_ok r _ r')
    · cases h

theorem short_ne_ok (r : Reading) (letter : Char) (r' : Reading) : r.short letter ≠ .ok r' := by
  unfold short
  split_ifs
  · exact request_ne_ok r _ r'
  · exact request_ne_ok r _ r'
  · exact fun h => (by cases h)

theorem value_inRange (hr : r.draft.InRange) (h : r.value text = .ok r') : r'.draft.InRange := by
  unfold value at h
  split at h
  · cases h
    exact hr
  · exact place_inRange hr h

theorem next_inRange (hr : r.draft.InRange) (h : r.next argument = .ok r') :
    r'.draft.InRange := by
  unfold next at h
  split at h
  · exact place_inRange hr h
  · split at h
    · cases h
      exact hr
    · exact long_inRange hr h
    · exact absurd h (short_ne_ok r _ r')
    · exact value_inRange hr h

/-- However many arguments have been read, the numbers of the draft are in range. -/
theorem foldlM_next_inRange {arguments : List String} (hr : r.draft.InRange)
    (h : arguments.foldlM next r = .ok r') : r'.draft.InRange := by
  induction arguments generalizing r with
  | nil =>
      cases h
      exact hr
  | cons argument rest ih =>
      rw [List.foldlM_cons] at h
      obtain ⟨r₁, hnext, h⟩ := bind_eq_ok_iff.mp h
      exact ih (next_inRange hr hnext) h

end Reading

/-- What is accepted is in range. -/
theorem parse_inRange {arguments : List String} (h : parse arguments = .ok s) : s.InRange := by
  obtain ⟨r, hread, h⟩ := bind_eq_ok_iff.mp h
  obtain ⟨r', hsettle, h⟩ := bind_eq_ok_iff.mp h
  have hdraft : r.draft.InRange := Reading.foldlM_next_inRange Draft.blank_inRange hread
  exact (Reading.settle_inRange hdraft hsettle).settings h

end ReaderWriter.CommandLine
