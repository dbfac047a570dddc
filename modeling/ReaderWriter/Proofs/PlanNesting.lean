import ReaderWriter.Plan

/-!
# Plans of one seed nest

Every decision of a plan takes one word of the stream, whatever it decides: decision
number `i` looks at word number `i`, and neither at the number of decisions nor at any
other of them. So two plans of one seed see the same words as far as both of them go, and
the one that wants more writes decides for a write wherever the other does.

The words come in blocks of sixteen. Word number `i` lies in block `i / 16`, and the
blocks of a longer plan begin with those of a shorter one.
-/

namespace ReaderWriter

namespace Keystream

/-- Word number `i` of the stream of a seed. -/
def word (seed : UInt64) (i : Nat) : UInt32 :=
  (block (expand seed 8) (i / 16).toUInt64).get ⟨i % 16, Nat.mod_lt i (by decide)⟩

/-- Blocks laid end to end: a word is found by the number of its block and its place in it. -/
theorem getElem?_blocksFrom (key : List UInt32) {n count i : Nat} (h : i < 16 * count) :
    (blocksFrom key n count)[i]? =
      some ((block key (n + i / 16).toUInt64).get ⟨i % 16, Nat.mod_lt i (by decide)⟩) := by
  induction count generalizing n i with
  | zero => omega
  | succ count ih =>
      rw [blocksFrom]
      obtain hlt | hge := Nat.lt_or_ge i 16
      · have hplace : i % 16 = i := Nat.mod_eq_of_lt hlt
        have hblock : i / 16 = 0 := Nat.div_eq_of_lt hlt
        rw [List.getElem?_append_left (by simpa using hlt), Vector.getElem?_toList]
        simp only [hplace, hblock, Nat.add_zero]
        exact Vector.getElem?_eq_getElem hlt
      · have hplace : (i - 16) % 16 = i % 16 := (Nat.mod_eq_sub_mod hge).symm
        have hblock : n + 1 + (i - 16) / 16 = n + i / 16 := by omega
        rw [List.getElem?_append_right (by simpa using hge), Vector.length_toList,
          ih (by omega)]
        simp only [hplace, hblock]

/-- The first words of the stream, whichever number of them is asked for. -/
theorem words_eq_map (seed : UInt64) (count : Nat) :
    words seed count = (List.range count).map (word seed) := by
  apply List.ext_getElem?
  intro i
  obtain hlt | hge := Nat.lt_or_ge i count
  · rw [words, List.getElem?_take_of_lt hlt, getElem?_blocksFrom _ (by omega), List.getElem?_map,
      List.getElem?_range hlt]
    simp only [Nat.zero_add]
    rfl
  · rw [List.getElem?_eq_none (by simpa using hge), List.getElem?_eq_none (by simpa using hge)]

end Keystream

namespace Plan

open Keystream (word)

variable {count n m : Nat} {percent r q : UInt8} {t u : Nat}

/-! ## Decisions -/

/-- A plan decides by one word after the other. -/
theorem decisions_generate (count : Nat) (percent : UInt8) (seed : UInt64) :
    (generate count percent seed).decisions =
      (List.range count).map fun i => decisionOf (threshold percent) (word seed i) := by
  rw [generate, Keystream.words_eq_map, List.map_map]
  rfl

theorem getElem?_generate (count : Nat) (percent : UInt8) (seed : UInt64) (i : Nat) :
    (generate count percent seed).decisions[i]? =
      if i < count then some (decisionOf (threshold percent) (word seed i)) else none := by
  rw [decisions_generate, List.getElem?_map]
  split
  · next hlt => rw [List.getElem?_range hlt, Option.map_some]
  · next hge => rw [List.getElem?_eq_none (by simpa using hge), Option.map_none]

theorem decisionOf_eq_write_iff (t : Nat) (w : UInt32) :
    decisionOf t w = .write ↔ w.toUInt8.toNat < t := by
  simp [decisionOf]

/-- A higher threshold lets no write become a read. -/
theorem decisionOf_mono (h : t ≤ u) {w : UInt32} (hwrite : decisionOf t w = .write) :
    decisionOf u w = .write := by
  rw [decisionOf_eq_write_iff] at hwrite ⊢
  exact Nat.lt_of_lt_of_le hwrite h

/-! ## Thresholds -/

theorem threshold_mono (h : r ≤ q) : threshold r ≤ threshold q :=
  Nat.div_le_div_right (Nat.mul_le_mul_right 255 (UInt8.le_iff_toNat_le.mp h))

/-- A word of 32 bits has room for the product, so the threshold may be computed in such
words. -/
theorem toNat_threshold (percent : UInt8) :
    percent.toNat * 255 < UInt32.size ∧
      (percent.toUInt32 * 255 / 100).toNat = threshold percent := by
  have hpercent : percent.toNat < 256 := percent.toNat_lt
  have hroom : percent.toNat * 255 < UInt32.size := by
    have hsize : UInt32.size = 4294967296 := rfl
    omega
  refine ⟨hroom, ?_⟩
  rw [threshold, UInt32.toNat_div, UInt32.toNat_mul, UInt8.toNat_toUInt32]
  exact congrArg (· / 100) (Nat.mod_eq_of_lt hroom)

/-- Nothing is below the threshold of no writes. -/
theorem decisionOf_none (w : UInt32) : decisionOf (threshold 0) w = .read :=
  if_neg (Nat.not_lt_zero _)

/-- Beyond a hundred percent every byte is below the threshold. At a hundred the greatest
byte is not. -/
theorem decisionOf_all (h : 101 ≤ percent) (w : UInt32) :
    decisionOf (threshold percent) w = .write := by
  have hbyte : w.toUInt8.toNat < 256 := w.toUInt8.toNat_lt
  have hleast : 101 ≤ percent.toNat := UInt8.le_iff_toNat_le.mp h
  rw [decisionOf_eq_write_iff, threshold]
  omega

/-! ## Two plans -/

/-- What a plan comes to that is drawn from the stream of a seed. -/
structure Drawn (count : Nat) (percent : UInt8) (seed : UInt64) : Prop where
  length : (generate count percent seed).decisions.length = count
  total : (generate count percent seed).reads + (generate count percent seed).writes = count
  /-- Every decision takes one word of the stream, which is the same in all plans. -/
  decision : ∀ i, (generate count percent seed).decisions[i]? =
    if i < count then
      some (if (word seed i).toUInt8.toNat < threshold percent then .write else .read)
    else none
  /-- The threshold is computed without a carry beyond 32 bits. -/
  room : percent.toNat * 255 < UInt32.size ∧
    (percent.toUInt32 * 255 / 100).toNat = threshold percent
  reads : percent = 0 → (generate count percent seed).decisions = List.replicate count .read
  writes : 101 ≤ percent → (generate count percent seed).decisions = List.replicate count .write
  /-- A plan that memory has room for is drawn when it is asked for. -/
  held : count < UInt64.size / 2 →
    Request.draw? ⟨count, percent, seed⟩ = some (generate count percent seed)

/-- What the first of two plans has in common with the second. -/
structure Nests (n m : Nat) (r q : UInt8) (seed : UInt64) : Prop where
  kept : ∀ i < n, (generate n r seed).decisions[i]? = some .write →
    (generate m q seed).decisions[i]? = some .write
  first : r = q → (generate n r seed).decisions <+: (generate m q seed).decisions
  writes : (generate n r seed).writes ≤ (generate m q seed).writes

theorem drawn (count : Nat) (percent : UInt8) (seed : UInt64) : Drawn count percent seed where
  length := length_generate count percent seed
  total := by rw [reads_add_writes, length_generate]
  decision := getElem?_generate count percent seed
  room := toNat_threshold percent
  reads := by
    rintro rfl
    simp only [decisions_generate, decisionOf_none, List.map_const', List.length_range]
  writes := by
    intro h
    simp only [decisions_generate, decisionOf_all h, List.map_const', List.length_range]
  held := by
    intro h
    exact if_pos ((Capacity.holds_iff count 1).mpr (by rwa [Nat.mul_one]))

/-- The writes of a plan, counted by the words that decide for them. -/
theorem writes_generate (count : Nat) (percent : UInt8) (seed : UInt64) :
    (generate count percent seed).writes =
      (List.range count).countP fun i => decisionOf (threshold percent) (word seed i) = .write := by
  rw [Plan.writes, decisions_generate, List.count_eq_countP, List.countP_map]
  rfl

theorem writes_mono (hcount : n ≤ m) (hpercent : r ≤ q) (seed : UInt64) :
    (generate n r seed).writes ≤ (generate m q seed).writes := by
  rw [writes_generate, writes_generate]
  refine Nat.le_trans ?_ (List.range_sublist.mpr hcount).countP_le
  apply List.countP_mono_left
  intro i _ hwrite
  rw [decide_eq_true_iff] at hwrite ⊢
  exact decisionOf_mono (threshold_mono hpercent) hwrite

/-- A plan nests in every plan of the same seed that is as long at least and wants as many
writes at least: it writes only where the other writes, it is the first part of the other
if both want the same, and it has no more writes. -/
theorem plans_nest (seed : UInt64) (hcount : n ≤ m) (hpercent : r ≤ q) :
    Drawn n r seed ∧ Drawn m q seed ∧ Nests n m r q seed := by
  refine ⟨drawn n r seed, drawn m q seed, ?_, ?_, writes_mono hcount hpercent seed⟩
  · intro i hi hwrite
    rw [getElem?_generate, if_pos hi, Option.some_inj] at hwrite
    rw [getElem?_generate, if_pos (Nat.lt_of_lt_of_le hi hcount), Option.some_inj]
    exact decisionOf_mono (threshold_mono hpercent) hwrite
  · rintro rfl
    rw [decisions_generate, decisions_generate, ← Nat.min_eq_left hcount, ← List.take_range]
    exact (List.take_prefix n _).map _

/-- The second block begins with decision number 16; the next one is a write already where
three writes of ten decisions are wanted. -/
theorem plans_nest_nextBlock :
    (generate 20 30 42).decisions[17]? = some .write ∧
      (generate 40 70 42).decisions[17]? = some .write ∧ Nests 20 40 30 70 42 := by
  obtain ⟨-, -, nests⟩ :=
    plans_nest 42 (by decide : 20 ≤ 40) (by decide : (30 : UInt8) ≤ 70)
  have hwrite : (generate 20 30 42).decisions[17]? = some .write := by decide +kernel
  exact ⟨hwrite, nests.kept 17 (by decide) hwrite, nests⟩

end Plan

end ReaderWriter
