import Mathlib.Algebra.Ring.Nat
import ReaderWriter.Rounding

/-!
# Rounding is near

A whole number that is rounded to differs from the quotient by half at most, and a number of
double length by no more than its last digit is worth, which is one part in 2^53 of it. So a
whole number with 53 digits or less stays what it is.
-/

namespace ReaderWriter.Ratio

variable {x : Ratio} {n : Nat}

theorem nearest_near (hden : 0 < x.den) :
    2 * (x.nearest * x.den) ≤ 2 * x.num + x.den ∧ 2 * x.num ≤ 2 * (x.nearest * x.den) + x.den := by
  have hsplit := Nat.div_add_mod x.num x.den
  have hrest := Nat.mod_lt x.num hden
  rw [nearest]
  generalize x.num / x.den = whole at hsplit ⊢
  generalize x.num % x.den = rest at hsplit hrest ⊢
  have hmul : whole * x.den = x.den * whole := Nat.mul_comm _ _
  have hsucc : (whole + 1) * x.den = x.den * whole + x.den := by
    rw [Nat.succ_mul, hmul]
  split
  · omega
  · split
    · omega
    · obtain heven | hodd := Nat.mod_two_eq_zero_or_one whole
      · rw [heven, Nat.add_zero]
        omega
      · rw [hodd]
        omega

/-- From the middle between two whole numbers a quotient is rounded to the even one. -/
theorem even_nearest (hmiddle : 2 * (x.num % x.den) = x.den) : x.nearest % 2 = 0 := by
  rw [nearest, if_neg (by omega), if_neg (by omega)]
  omega

theorem nearest_of_mul (hden : 0 < x.den) (h : x.num = n * x.den) : x.nearest = n := by
  rw [nearest, h, Nat.mul_mod_left, Nat.mul_div_cancel n hden]
  exact if_pos hden

theorem scale_pos (x : Ratio) : 0 < x.scale := by
  rw [scale, Nat.one_shiftLeft]
  exact Nat.two_pow_pos _

theorem unit_pos (x : Ratio) : 0 < x.unit := by
  rw [unit, Nat.one_shiftLeft]
  exact Nat.two_pow_pos _

/-- The scale leaves 54 digits or more of a quotient that is not 0. -/
theorem le_num_mul_scale_div (hden : 0 < x.den) (hnum : 0 < x.num) :
    2 ^ 53 ≤ x.num * x.scale / x.den := by
  have hlog : x.den < 2 ^ (x.den.log2 + 1) := Nat.lt_log2_self
  rw [Nat.le_div_iff_mul_le hden, scale, Nat.one_shiftLeft]
  calc 2 ^ 53 * x.den
    _ ≤ 2 ^ 53 * 2 ^ (x.den.log2 + 1) := Nat.mul_le_mul_left _ (Nat.le_of_lt hlog)
    _ = 2 ^ (x.den.log2 + 54) := by
      rw [← Nat.pow_add]
      congr 1
      omega
    _ ≤ x.num * 2 ^ (x.den.log2 + 54) := Nat.le_mul_of_pos_left _ hnum

/-- The last digit that is kept is worth no more than one part in 2^52. -/
theorem unit_le (hden : 0 < x.den) (hnum : 0 < x.num) :
    x.unit * x.den * 2 ^ 52 ≤ x.num * x.scale := by
  have hwhole := le_num_mul_scale_div hden hnum
  have hdiv := Nat.div_mul_le_self (x.num * x.scale) x.den
  rw [unit, Nat.one_shiftLeft]
  generalize x.num * x.scale / x.den = whole at hwhole hdiv ⊢
  have hne : whole ≠ 0 := by
    rintro rfl
    omega
  have hlog : 53 ≤ whole.log2 := (Nat.le_log2 hne).mpr hwhole
  calc 2 ^ (whole.log2 - 52) * x.den * 2 ^ 52
    _ = 2 ^ (whole.log2 - 52 + 52) * x.den := by
      rw [Nat.mul_right_comm, ← Nat.pow_add]
    _ = 2 ^ whole.log2 * x.den := by
      rw [Nat.sub_add_cancel (by omega)]
    _ ≤ whole * x.den := Nat.mul_le_mul_right _ (Nat.log2_self_le hne)
    _ ≤ x.num * x.scale := hdiv

/-- A number of double length differs from the quotient by one part in 2^53 at most. -/
theorem double_near (hden : 0 < x.den) :
    x.double.num * x.den * 2 ^ 53 ≤
        x.num * x.double.den * 2 ^ 53 + x.num * x.double.den ∧
      x.num * x.double.den * 2 ^ 53 ≤
        x.double.num * x.den * 2 ^ 53 + x.num * x.double.den := by
  obtain hnum | hnum := Nat.eq_zero_or_pos x.num
  · have hzero : nearest ⟨x.num * x.scale, x.den * x.unit⟩ = 0 :=
      nearest_of_mul (Nat.mul_pos hden x.unit_pos) (by simp [hnum])
    rw [double, hzero, hnum]
    simp
  · obtain ⟨hupper, hlower⟩ := nearest_near (x := ⟨x.num * x.scale, x.den * x.unit⟩)
      (Nat.mul_pos hden x.unit_pos)
    have hunit := unit_le hden hnum
    rw [double]
    dsimp only at hupper hlower ⊢
    generalize nearest ⟨x.num * x.scale, x.den * x.unit⟩ = m at hupper hlower ⊢
    have hkept : m * x.unit * x.den = m * (x.den * x.unit) := by
      rw [Nat.mul_assoc, Nat.mul_comm x.unit]
    have hlast : x.unit * x.den = x.den * x.unit := Nat.mul_comm _ _
    rw [hkept]
    rw [hlast] at hunit
    omega

theorem unit_ofNat_dvd_scale (h : n < 2 ^ 53) : (ofNat n).unit ∣ (ofNat n).scale := by
  have hscale : (ofNat n).scale = 2 ^ 54 := rfl
  have hlog : (n * 2 ^ 54).log2 < 107 := by
    obtain rfl | hpos := Nat.eq_zero_or_pos n
    · simp
    · exact (Nat.log2_lt (by omega)).mpr (by omega)
  rw [unit, hscale, Nat.one_shiftLeft]
  change 2 ^ ((n * 2 ^ 54 / 1).log2 - 52) ∣ 2 ^ 54
  rw [Nat.div_one]
  exact Nat.pow_dvd_pow 2 (by omega)

/-- A whole number of 53 digits or less is kept. -/
theorem double_ofNat (h : n < 2 ^ 53) : (ofNat n).double.num = n * (ofNat n).double.den := by
  obtain ⟨t, ht⟩ := unit_ofNat_dvd_scale h
  have hnearest : nearest ⟨n * (ofNat n).scale, 1 * (ofNat n).unit⟩ = n * t := by
    apply nearest_of_mul (Nat.mul_pos Nat.one_pos (ofNat n).unit_pos)
    rw [ht, Nat.one_mul, Nat.mul_assoc, Nat.mul_comm t]
  change nearest ⟨n * (ofNat n).scale, 1 * (ofNat n).unit⟩ * (ofNat n).unit = n * (ofNat n).scale
  rw [hnearest, ht, Nat.mul_assoc, Nat.mul_comm t]

/-- Divided at double length, a whole number of 53 digits or less is off by less than one. -/
theorem double_dividedBy_near {m : Nat} (hm : 0 < m) (h : n < 2 ^ 53) :
    let x := ((ofNat n).double.dividedBy m).double
    x.num * m < n * x.den + x.den ∧ n * x.den < x.num * m + x.den := by
  intro x
  have hpos : 0 < (ofNat n).double.den := (ofNat n).scale_pos
  have hden : 0 < x.den := ((ofNat n).double.dividedBy m).scale_pos
  obtain ⟨hup, hdown⟩ := double_near (x := (ofNat n).double.dividedBy m) (Nat.mul_pos hpos hm)
  -- The denominator of the whole number stands on both sides of each bound.
  have hleft : x.num * ((ofNat n).double.dividedBy m).den = (ofNat n).double.den * (x.num * m) :=
    Nat.mul_left_comm _ _ _
  have hright : ((ofNat n).double.dividedBy m).num * x.den =
      (ofNat n).double.den * (n * x.den) := by
    change (ofNat n).double.num * x.den = _
    rw [double_ofNat h, Nat.mul_comm n, Nat.mul_assoc]
  have hcancel : ∀ a b : Nat, (ofNat n).double.den * a * 2 ^ 53 ≤
      (ofNat n).double.den * b * 2 ^ 53 + (ofNat n).double.den * (n * x.den) →
        a * 2 ^ 53 ≤ b * 2 ^ 53 + n * x.den := by
    intro a b hab
    rw [Nat.mul_assoc, Nat.mul_assoc, ← Nat.mul_add] at hab
    exact Nat.le_of_mul_le_mul_left hab hpos
  rw [hleft, hright] at hup hdown
  have hup := hcancel _ _ hup
  have hdown := hcancel _ _ hdown
  have hless : n * x.den < 2 ^ 53 * x.den := Nat.mul_lt_mul_of_pos_right h hden
  omega

end ReaderWriter.Ratio
