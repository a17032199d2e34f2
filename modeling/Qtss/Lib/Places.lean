import Mathlib.Algebra.Order.Field.Basic
import Mathlib.Data.Nat.Find
import Mathlib.Tactic.Linarith
import Mathlib.Tactic.Ring
import Qtss.Lib.Float64
/-
# Rounding to decimal places

`toPlaces n x` is the multiple of `1 / 10 ^ n` nearest to `x`, ties to even, as printing with `n` places and reading
back makes it. It exceeds `x` by half a unit at most (`toPlaces_le`), and is positive exactly beyond half a
unit (`toPlaces_pos_iff`): what is smaller is rounded away.

`decimal` is what a decimal of 96 bits keeps of an exact result: as many of its 28 places as the bits hold.
-/

namespace Places
open F64

theorem roundHalfEven_le (x : ℚ) : (roundHalfEven x : ℚ) ≤ x + 1 / 2 := by
  have hfloor := Int.floor_le x
  unfold roundHalfEven
  dsimp only
  split_ifs <;> push_cast <;> linarith

theorem le_roundHalfEven (x : ℚ) : x - 1 / 2 ≤ roundHalfEven x := by
  have hfloor := Int.lt_floor_add_one x
  unfold roundHalfEven
  dsimp only
  split_ifs <;> push_cast <;> linarith

/-- A half alone goes to zero, which is even. -/
theorem roundHalfEven_pos_iff (x : ℚ) : 0 < roundHalfEven x ↔ 1 / 2 < x := by
  constructor
  · intro hpos
    by_contra hx
    have hle := not_lt.1 hx
    have hfloor : ⌊x⌋ < 1 := Int.floor_lt.2 (by push_cast; linarith)
    have hbelow := Int.lt_floor_add_one x
    have heven : roundHalfEven x ≠ ⌊x⌋ + 1 ∨ ⌊x⌋ < 0 := by
      by_cases hneg : ⌊x⌋ < 0
      · exact .inr hneg
      · have hzero : ⌊x⌋ = 0 := by omega
        left
        unfold roundHalfEven
        simp only [hzero, Int.cast_zero, sub_zero]
        rw [if_neg hx]
        split_ifs <;> simp_all
    have hcases : roundHalfEven x = ⌊x⌋ ∨ roundHalfEven x = ⌊x⌋ + 1 := by
      unfold roundHalfEven
      dsimp only
      split_ifs <;> simp
    omega
  · intro hx
    have hround := le_roundHalfEven x
    have hcast : (0 : ℚ) < roundHalfEven x := by linarith
    exact_mod_cast hcast

theorem roundHalfEven_nonneg {x : ℚ} (hx : 0 ≤ x) : 0 ≤ roundHalfEven x := by
  have hround := le_roundHalfEven x
  have hcast : (-1 : ℚ) < roundHalfEven x := by linarith
  have hint : (-1 : ℤ) < roundHalfEven x := by exact_mod_cast hcast
  omega

theorem roundHalfEven_intCast (z : ℤ) : roundHalfEven z = z := by
  simp [roundHalfEven]

theorem roundHalfEven_mono {x y : ℚ} (h : x ≤ y) : roundHalfEven x ≤ roundHalfEven y := by
  have hfloor := Int.floor_mono h
  rcases hfloor.eq_or_lt with heq | hlt
  · -- within one unit the fractions decide
    unfold roundHalfEven
    dsimp only
    rw [heq]
    split_ifs <;> first | omega | (exfalso; linarith)
  · have hx : roundHalfEven x ≤ ⌊x⌋ + 1 := by
      unfold roundHalfEven
      dsimp only
      split_ifs <;> omega
    have hy : ⌊y⌋ ≤ roundHalfEven y := by
      unfold roundHalfEven
      dsimp only
      split_ifs <;> omega
    omega

def toPlaces (n : ℕ) (x : ℚ) : ℚ := roundHalfEven (x * 10 ^ n) / 10 ^ n

/-- Half of the last place. -/
def halfUnit (n : ℕ) : ℚ := 1 / 2 / 10 ^ n

variable {n : ℕ} {x : ℚ}

theorem toPlaces_le : toPlaces n x ≤ x + halfUnit n := by
  have hunit : (0 : ℚ) < 10 ^ n := by positivity
  calc toPlaces n x ≤ (x * 10 ^ n + 1 / 2) / 10 ^ n := div_le_div_of_nonneg_right (roundHalfEven_le _) hunit.le
    _ = x + halfUnit n := by rw [add_div, mul_div_cancel_right₀ x hunit.ne', halfUnit]

theorem toPlaces_pos_iff : 0 < toPlaces n x ↔ halfUnit n < x := by
  have hunit : (0 : ℚ) < 10 ^ n := by positivity
  calc 0 < toPlaces n x ↔ (0 : ℚ) < roundHalfEven (x * 10 ^ n) := div_pos_iff_of_pos_right hunit
    _ ↔ 1 / 2 < x * 10 ^ n := by rw [Int.cast_pos, roundHalfEven_pos_iff]
    _ ↔ halfUnit n < x := (div_lt_iff₀ hunit).symm

theorem toPlaces_nonneg (hx : 0 ≤ x) : 0 ≤ toPlaces n x := by
  have hunit : (0 : ℚ) < 10 ^ n := by positivity
  exact div_nonneg (Int.cast_nonneg (roundHalfEven_nonneg (mul_nonneg hx hunit.le))) hunit.le

theorem toPlaces_mono {y : ℚ} (h : x ≤ y) : toPlaces n x ≤ toPlaces n y := by
  have hunit : (0 : ℚ) < 10 ^ n := by positivity
  have hround := roundHalfEven_mono (mul_le_mul_of_nonneg_right h hunit.le)
  exact div_le_div_of_nonneg_right (by exact_mod_cast hround) hunit.le

/-! ## Decimals of 96 bits -/

/-- The places that are kept. -/
def scale (x : ℚ) : ℕ := Nat.findGreatest (fun n => |roundHalfEven (x * 10 ^ n)| < 2 ^ 96) 28

/-- Of results below `2 ^ 96`: larger ones are refused. -/
def decimal (x : ℚ) : ℚ := toPlaces (scale x) x

theorem decimal_nonneg (hx : 0 ≤ x) : 0 ≤ decimal x := toPlaces_nonneg hx

theorem halfUnit_anti {m : ℕ} (h : m ≤ n) : halfUnit n ≤ halfUnit m :=
  div_le_div_of_nonneg_left (by norm_num) (by positivity) (pow_le_pow_right₀ (by norm_num) h)

/-- Only what is beyond the last of the 28 places goes to zero. -/
theorem decimal_pos_iff : 0 < decimal x ↔ halfUnit 28 < x := by
  rw [decimal, toPlaces_pos_iff]
  have hle : scale x ≤ 28 := Nat.findGreatest_le 28
  constructor
  · exact (halfUnit_anti hle).trans_lt
  · intro hx
    rcases hle.eq_or_lt with heq | hlt
    · rwa [heq]
    · -- one more place does not fit, so there is much before it
      have hnot := Nat.findGreatest_is_greatest (Nat.lt_succ_self (scale x)) (Nat.succ_le_of_lt hlt)
      have hpos : 0 < x := lt_trans (by norm_num [halfUnit]) hx
      have hround := roundHalfEven_le (x * 10 ^ (scale x).succ)
      have hnonneg := roundHalfEven_nonneg (x := x * 10 ^ (scale x).succ) (by positivity)
      rw [abs_of_nonneg hnonneg, not_lt] at hnot
      have hlarge : ((2 ^ 96 : ℤ) : ℚ) ≤ roundHalfEven (x * 10 ^ (scale x).succ) := by exact_mod_cast hnot
      have hunit : (0 : ℚ) < 10 ^ scale x := by positivity
      rw [halfUnit, div_lt_iff₀ hunit]
      have hten : x * 10 ^ (scale x).succ = x * 10 ^ scale x * 10 := by rw [pow_succ, mul_assoc]
      rw [hten] at hround hlarge
      push_cast at hlarge
      linarith

theorem decimal_zero : decimal 0 = 0 := by
  rw [decimal, toPlaces, zero_mul]
  simp [roundHalfEven]

/-- What fits `n` places keeps `n` of them. -/
theorem le_scale (hn : n ≤ 28) (h : |roundHalfEven (x * 10 ^ n)| < 2 ^ 96) : n ≤ scale x :=
  Nat.le_findGreatest hn h

theorem scale_fits (h : scale x ≠ 0) : |roundHalfEven (x * 10 ^ scale x)| < 2 ^ 96 :=
  Nat.findGreatest_of_ne_zero (P := fun n => |roundHalfEven (x * 10 ^ n)| < 2 ^ 96) rfl h

theorem lt_scale_full (hn : scale x < n) (hle : n ≤ 28) : 2 ^ 96 ≤ |roundHalfEven (x * 10 ^ n)| :=
  not_lt.1 (Nat.findGreatest_is_greatest hn hle)

/-- A rounded result is kept as it is. -/
theorem decimal_decimal (x : ℚ) : decimal (decimal x) = decimal x := by
  have hunit : (10 : ℚ) ^ scale x ≠ 0 := by positivity
  have hle : scale x ≤ scale (decimal x) := by
    by_cases hzero : scale x = 0
    · omega
    · refine le_scale (Nat.findGreatest_le 28) ?_
      rw [decimal, toPlaces, div_mul_cancel₀ _ hunit, roundHalfEven_intCast]
      exact scale_fits hzero
  obtain ⟨k, hk⟩ := Nat.exists_eq_add_of_le hle
  have hmore : decimal x * 10 ^ scale (decimal x) = (roundHalfEven (x * 10 ^ scale x) * 10 ^ k : ℤ) := by
    rw [hk, pow_add, ← mul_assoc, decimal, toPlaces, div_mul_cancel₀ _ hunit]
    push_cast
    rfl
  rw [decimal, toPlaces, hmore, roundHalfEven_intCast, ← hmore, mul_div_cancel_right₀ _ (by positivity)]

theorem decimal_mono {y : ℚ} (hx : 0 ≤ x) (h : x ≤ y) : decimal x ≤ decimal y := by
  rcases lt_trichotomy (scale x) (scale y) with hlt | heq | hgt
  · -- what the larger one fits, the smaller one does
    have hfits := scale_fits (x := y) (by omega)
    have hround := roundHalfEven_mono (mul_le_mul_of_nonneg_right h (by positivity : (0 : ℚ) ≤ 10 ^ scale y))
    have hnonneg := roundHalfEven_nonneg (x := x * 10 ^ scale y) (by positivity)
    rw [abs_lt] at hfits
    have hscale : scale y ≤ scale x := le_scale (Nat.findGreatest_le 28) (abs_lt.2 ⟨by omega, by omega⟩)
    omega
  · rw [decimal, decimal, heq]
    exact toPlaces_mono h
  · -- one more place of the larger one is more than the smaller one has there
    have hle : scale x ≤ 28 := Nat.findGreatest_le 28
    have hfull := lt_scale_full (Nat.lt_succ_self (scale y)) (by omega)
    have hy : 0 ≤ y := hx.trans h
    rw [abs_of_nonneg (roundHalfEven_nonneg (by positivity))] at hfull
    have hlarge : ((2 ^ 96 : ℤ) : ℚ) ≤ y * 10 ^ scale y * 10 + 1 / 2 := by
      rw [mul_assoc, ← pow_succ]
      exact (by exact_mod_cast hfull : ((2 ^ 96 : ℤ) : ℚ) ≤ _).trans (roundHalfEven_le _)
    have hround : roundHalfEven ((2 ^ 96 - 1 / 2) / 10) ≤ roundHalfEven (y * 10 ^ scale y) :=
      roundHalfEven_mono (by push_cast at hlarge; linarith)
    have htenth : (2 ^ 96 - 1 : ℤ) ≤ roundHalfEven ((2 ^ 96 - 1 / 2) / 10) * 10 := by decide +kernel
    have hsmall := (abs_lt.1 (scale_fits (x := x) (by omega))).2
    have hbelow : roundHalfEven (x * 10 ^ scale x) ≤ roundHalfEven (y * 10 ^ scale y) * 10 := by omega
    calc decimal x ≤ (roundHalfEven (y * 10 ^ scale y) * 10 : ℤ) / 10 ^ scale x :=
          div_le_div_of_nonneg_right (by exact_mod_cast hbelow) (by positivity)
      _ ≤ (roundHalfEven (y * 10 ^ scale y) * 10 : ℤ) / 10 ^ (scale y + 1) := by
          refine div_le_div_of_nonneg_left ?_ (by positivity) (pow_le_pow_right₀ (by norm_num) hgt)
          have hnonneg := roundHalfEven_nonneg (x := y * 10 ^ scale y) (by positivity)
          exact_mod_cast mul_nonneg hnonneg (by norm_num)
      _ = decimal y := by
          push_cast
          rw [pow_succ, mul_div_mul_right _ _ (by norm_num : (10 : ℚ) ≠ 0)]
          rfl

end Places
