import Mathlib.Algebra.Order.Group.MinMax
import Mathlib.Tactic.Linarith
import Qtss.ChartPatterns.Parity
/-
# The type of two lines

`resolvePatternTypeId` (resolve.rs:17) works with quotients, and in two branches for which line is the upper one.
`pairType` is what both come to for a line over another: the changes of the two prices against a tolerance
(`resolve_of_above`, `resolve_of_below`). The one difference is at the end: `signum` is 1 at 0, so lines that meet there
have a type if the first is the upper one, and are invalid if it is the lower one.

The laws of the type (`symmetric_iff`) and what it says of the lines (`describes_iff`) hold but for those lines.
-/

namespace Qtss.ChartPatterns

/-- Up, down, or flat within the tolerance. -/
def lineDir (tolerance change : ℚ) : ℤ := if change > tolerance then 1 else if change < -tolerance then -1 else 0

/-- The type of a line from `u1` to `u2` over a line from `l1` to `l2`. -/
def pairType (u1 u2 l1 l2 flatRatio : ℚ) : ℤ :=
  let upper := lineDir (flatRatio * (u1 - min l1 l2)) (u2 - u1)
  let lower := lineDir (flatRatio * (max u1 u2 - l1)) (l2 - l1)
  let start := u1 - l1
  let stop := u2 - l2
  let isChannel : Bool := 2 * |start - stop| < min start stop ∨ (upper = 0 ∧ lower = 0)
  max 0 (patternType false isChannel (start < stop) (stop < start) upper lower)

/-! ## The quotients -/

section angles
variable {f m x y : ℚ}

theorem angle_gt_iff (h : 0 < x - m) : (y - m) / (x - m) > 1 + f ↔ y - x > f * (x - m) := by
  rw [gt_iff_lt, lt_div_iff₀ h]
  constructor <;> intro hlt <;> linarith

theorem angle_lt_iff (h : 0 < x - m) : (y - m) / (x - m) < 1 - f ↔ y - x < -(f * (x - m)) := by
  rw [div_lt_iff₀ h]
  constructor <;> intro hlt <;> linarith

theorem upperDir_eq (h : m < x) :
    (if (y - m) / (x - m) > 1 + f then 1 else if (y - m) / (x - m) < 1 - f then -1 else 0 : ℤ) =
      lineDir (f * (x - m)) (y - x) := by
  have hpos : 0 < x - m := sub_pos.2 h
  simp only [angle_gt_iff hpos, angle_lt_iff hpos, lineDir]

/-- The lower angle is that of the line upside down. -/
theorem lowerDir_eq (hf : 0 ≤ f) (h : x < m) :
    (if (y - m) / (x - m) > 1 + f then -1 else if (y - m) / (x - m) < 1 - f then 1 else 0 : ℤ) =
      lineDir (f * (m - x)) (y - x) := by
  have hneg : (y - m) / (x - m) = (-y - -m) / (-x - -m) := by
    rw [← neg_div_neg_eq]
    congr 1 <;> ring
  have hpos : 0 < -x - -m := by linarith
  have htol : 0 ≤ f * (m - x) := mul_nonneg hf (sub_pos.2 h).le
  have hflip : f * (-x - -m) = f * (m - x) := by ring
  rw [hneg]
  simp only [angle_gt_iff hpos, angle_lt_iff hpos, hflip, lineDir]
  by_cases hup : y - x > f * (m - x)
  · rw [if_neg (by linarith), if_pos (by linarith), if_pos hup]
  · by_cases hdown : y - x < -(f * (m - x))
    · rw [if_pos (by linarith), if_neg hup, if_pos hdown]
    · rw [if_neg (by linarith), if_neg (by linarith), if_neg hup, if_neg hdown]

/-- The number of bars cancels: lines are far apart if the smaller gap is more than twice the difference of the two. -/
theorem farApart_iff {start stop bd : ℚ} (hbd : 0 < bd) (hstart : 0 < start) :
    |start - stop| / bd = 0 ∨ min start stop / (|start - stop| / bd) > 2 * bd ↔
      2 * |start - stop| < min start stop := by
  by_cases heq : start = stop
  · subst heq
    simp [hstart]
  · have habs : 0 < |start - stop| := abs_pos.2 (sub_ne_zero.2 heq)
    have hquo : 0 < |start - stop| / bd := div_pos habs hbd
    have hmul : 2 * bd * (|start - stop| / bd) = 2 * |start - stop| := by
      field_simp
    rw [gt_iff_lt, lt_div_iff₀ hquo, hmul]
    simp [hquo.ne']

end angles

/-! ## The two branches -/

section branches
variable {u1 u2 l1 l2 f : ℚ} {barDiff : ℤ}

/-- Both branches, for a line that starts above the other. -/
theorem resolve_of_lines {a1 a2 b1 b2 : ℚ} (hbar : 0 < barDiff) (hf : 0 ≤ f) (hleft : l1 < u1)
    (hangles : lineAngles a1 a2 b1 b2 =
      some ((u2 - min l1 l2) / (u1 - min l1 l2), (l2 - max u1 u2) / (l1 - max u1 u2)))
    (hstart : |a1 - b1| = u1 - l1) (hstop : signum (a1 - b1) = signum (a2 - b2) → |a2 - b2| = u2 - l2) :
    resolvePatternTypeId a1 a2 b1 b2 barDiff f =
      if signum (a1 - b1) = signum (a2 - b2) then pairType u1 u2 l1 l2 f else 0 := by
  have hbd : (0 : ℚ) < barDiff := by exact_mod_cast hbar
  have hpos : 0 < u1 - l1 := sub_pos.2 hleft
  rw [resolvePatternTypeId, if_neg hbar.ne', hangles]
  dsimp only
  by_cases hsign : signum (a1 - b1) = signum (a2 - b2)
  · rw [if_pos hsign, decide_eq_false (not_not.2 hsign), upperDir_eq ((min_le_left l1 l2).trans_lt hleft),
      lowerDir_eq hf (hleft.trans_le (le_max_left u1 u2)), hstart, hstop hsign, pairType]
    simp only [farApart_iff hbd hpos]
    congr 2
    rcases lt_trichotomy (u1 - l1) (u2 - l2) with hlt | heq | hgt
    · simp [hlt]
    · simp [heq, heq ▸ hpos]
    · simp [hgt]
  · rw [if_neg hsign, decide_eq_true hsign, patternType_invalid, max_self]

theorem signum_eq_one_iff {x : ℚ} : signum x = 1 ↔ 0 ≤ x := by
  unfold signum
  split
  · rename_i hneg
    exact iff_of_false (by decide) (not_le.2 hneg)
  · rename_i hpos
    exact iff_of_true rfl (not_lt.1 hpos)

theorem signum_eq_neg_one_iff {x : ℚ} : signum x = -1 ↔ x < 0 := by
  unfold signum
  split
  · rename_i hneg
    exact iff_of_true rfl hneg
  · rename_i hpos
    exact iff_of_false (by decide) hpos

/-- Neither denominator is 0 for lines that start apart. -/
theorem denominators_ne (hleft : l1 < u1) (u2 l2 : ℚ) : u1 - min l1 l2 ≠ 0 ∧ l1 - max u1 u2 ≠ 0 :=
  ⟨(sub_pos.2 ((min_le_left _ _).trans_lt hleft)).ne', (sub_neg.2 (hleft.trans_le (le_max_left _ _))).ne⟩

/-- The first line is the upper one, and may meet the other at the end. -/
theorem resolve_of_above (hbar : 0 < barDiff) (hf : 0 ≤ f) (hleft : l1 < u1) :
    resolvePatternTypeId u1 u2 l1 l2 barDiff f = if l2 ≤ u2 then pairType u1 u2 l1 l2 f else 0 := by
  obtain ⟨hden, hden'⟩ := denominators_ne hleft u2 l2
  have hangles : lineAngles u1 u2 l1 l2 =
      some ((u2 - min l1 l2) / (u1 - min l1 l2), (l2 - max u1 u2) / (l1 - max u1 u2)) := by
    rw [lineAngles, if_pos hleft]
    simp only [if_neg hden, if_neg hden']
  have hsign : signum (u1 - l1) = signum (u2 - l2) ↔ l2 ≤ u2 := by
    rw [signum_eq_one_iff.2 (sub_nonneg.2 hleft.le), eq_comm, signum_eq_one_iff, sub_nonneg]
  rw [resolve_of_lines hbar hf hleft hangles (abs_of_pos (sub_pos.2 hleft)) fun h =>
    abs_of_nonneg (sub_nonneg.2 (hsign.1 h))]
  simp only [hsign]

/-- The second line is the upper one. -/
theorem resolve_of_below (hbar : 0 < barDiff) (hf : 0 ≤ f) (hleft : l1 < u1) :
    resolvePatternTypeId l1 l2 u1 u2 barDiff f = if l2 < u2 then pairType u1 u2 l1 l2 f else 0 := by
  obtain ⟨hden, hden'⟩ := denominators_ne hleft u2 l2
  have hangles : lineAngles l1 l2 u1 u2 =
      some ((u2 - min l1 l2) / (u1 - min l1 l2), (l2 - max u1 u2) / (l1 - max u1 u2)) := by
    rw [lineAngles, if_neg (not_lt.2 hleft.le)]
    simp only [if_neg hden, if_neg hden']
  have hsign : signum (l1 - u1) = signum (l2 - u2) ↔ l2 < u2 := by
    rw [signum_eq_neg_one_iff.2 (sub_neg.2 hleft), eq_comm, signum_eq_neg_one_iff, sub_neg]
  rw [resolve_of_lines hbar hf hleft hangles]
  · simp only [hsign]
  · rw [abs_of_neg (sub_neg.2 hleft), neg_sub]
  · intro h
    rw [abs_of_neg (sub_neg.2 (hsign.1 h)), neg_sub]

end branches

/-! ## Directions and types -/

section directions
variable {t x c : ℚ}

theorem lineDir_cases (t x : ℚ) :
    (lineDir t x = 1 ∧ t < x) ∨ (lineDir t x = -1 ∧ x < -t) ∨ (lineDir t x = 0 ∧ x ≤ t ∧ -t ≤ x) := by
  unfold lineDir
  split
  · rename_i hup
    exact .inl ⟨rfl, hup⟩
  · rename_i hup
    split
    · rename_i hdown
      exact .inr (.inl ⟨rfl, hdown⟩)
    · rename_i hdown
      exact .inr (.inr ⟨rfl, not_lt.1 hup, not_lt.1 hdown⟩)

theorem lineDir_mem (t x : ℚ) : lineDir t x ∈ [(-1 : ℤ), 0, 1] := by
  rcases lineDir_cases t x with ⟨h, -⟩ | ⟨h, -⟩ | ⟨h, -⟩ <;> simp [h]

theorem pos_of_lineDir (ht : 0 ≤ t) (h : 0 < lineDir t x) : 0 < x := by
  rcases lineDir_cases t x with ⟨-, hx⟩ | ⟨heq, -⟩ | ⟨heq, -⟩
  · exact ht.trans_lt hx
  · rw [heq] at h
    cases h
  · rw [heq] at h
    cases h

theorem neg_of_lineDir (ht : 0 ≤ t) (h : lineDir t x < 0) : x < 0 := by
  rcases lineDir_cases t x with ⟨heq, -⟩ | ⟨-, hx⟩ | ⟨heq, -⟩
  · rw [heq] at h
    cases h
  · linarith
  · rw [heq] at h
    cases h

theorem lineDir_neg (ht : 0 ≤ t) (x : ℚ) : lineDir t (-x) = -lineDir t x := by
  unfold lineDir
  by_cases hup : x > t
  · rw [if_neg (by linarith), if_pos (by linarith), if_pos hup]
  · by_cases hdown : x < -t
    · rw [if_pos (by linarith), if_neg hup, if_pos hdown]
      rfl
    · rw [if_neg (by linarith), if_neg (by linarith), if_neg hup, if_neg hdown]
      rfl

theorem lineDir_mul (hc : 0 < c) (t x : ℚ) : lineDir (c * t) (c * x) = lineDir t x := by
  have hup : c * x > c * t ↔ x > t := mul_lt_mul_iff_right₀ hc
  have hdown : c * x < -(c * t) ↔ x < -t := by rw [← mul_neg, mul_lt_mul_iff_right₀ hc]
  simp only [lineDir, hup, hdown]

end directions

/-- The type of the lines upside down. -/
def mirrorId : ℤ → ℤ
  | 1 => 2
  | 2 => 1
  | 4 => 5
  | 5 => 4
  | 7 => 8
  | 8 => 7
  | 9 => 10
  | 10 => 9
  | 12 => 13
  | 13 => 12
  | id => id

/-! The table of types, over the three directions of either line. -/

/-- Upside down the lines change places and directions. -/
theorem patternType_mirror : ∀ upper ∈ [(-1 : ℤ), 0, 1], ∀ lower ∈ [(-1 : ℤ), 0, 1],
    ∀ isChannel isExpanding isContracting : Bool, (upper = 0 ∧ lower = 0 → isChannel = true) →
      max 0 (patternType false isChannel isExpanding isContracting (-lower) (-upper)) =
        mirrorId (max 0 (patternType false isChannel isExpanding isContracting upper lower)) := by
  decide

theorem patternType_width : ∀ upper ∈ [(-1 : ℤ), 0, 1], ∀ lower ∈ [(-1 : ℤ), 0, 1],
    ∀ isChannel isExpanding isContracting : Bool,
      (4 ≤ patternType false isChannel isExpanding isContracting upper lower →
        patternType false isChannel isExpanding isContracting upper lower ≤ 8 → isExpanding = true) ∧
      (9 ≤ patternType false isChannel isExpanding isContracting upper lower → isContracting = true) := by
  decide

/-- 1 stands for two rising lines, and for a flat line under a rising one that it approaches. -/
theorem patternType_rising : ∀ upper ∈ [(-1 : ℤ), 0, 1], ∀ lower ∈ [(-1 : ℤ), 0, 1],
    ∀ isChannel isExpanding isContracting : Bool, (upper = 0 ∧ lower = 0 → isChannel = true) →
      patternType false isChannel isExpanding isContracting upper lower ∈ [(1 : ℤ), 4, 9] →
        0 < upper ∧ (0 < lower ∨ isContracting = true) := by
  decide

/-- 2 stands for two falling lines, and for a flat line over a falling one that it approaches. -/
theorem patternType_falling : ∀ upper ∈ [(-1 : ℤ), 0, 1], ∀ lower ∈ [(-1 : ℤ), 0, 1],
    ∀ isChannel isExpanding isContracting : Bool,
      patternType false isChannel isExpanding isContracting upper lower ∈ [(2 : ℤ), 5, 10] →
        lower < 0 ∧ (upper < 0 ∨ isContracting = true) := by
  decide

theorem patternType_opposed : ∀ upper ∈ [(-1 : ℤ), 0, 1], ∀ lower ∈ [(-1 : ℤ), 0, 1],
    ∀ isChannel isExpanding isContracting : Bool,
      (patternType false isChannel isExpanding isContracting upper lower = 6 → 0 < upper ∧ lower < 0) ∧
      (patternType false isChannel isExpanding isContracting upper lower = 11 → upper < 0 ∧ 0 < lower) := by
  decide

/-- The only pair that contracts and has no type. -/
theorem patternType_none : ∀ upper ∈ [(-1 : ℤ), 0, 1], ∀ lower ∈ [(-1 : ℤ), 0, 1], ∀ isChannel : Bool,
    patternType false isChannel false true upper lower ≤ 0 → 0 < upper ∧ lower < 0 := by
  decide

/-! ## Laws of the type -/

section laws
variable {u1 u2 l1 l2 f c : ℚ}

theorem pairType_mul (hc : 0 < c) : pairType (c * u1) (c * u2) (c * l1) (c * l2) f = pairType u1 u2 l1 l2 f := by
  have htop : f * (c * u1 - min (c * l1) (c * l2)) = c * (f * (u1 - min l1 l2)) := by
    rw [← mul_min_of_nonneg _ _ hc.le]
    ring
  have hbottom : f * (max (c * u1) (c * u2) - c * l1) = c * (f * (max u1 u2 - l1)) := by
    rw [← mul_max_of_nonneg _ _ hc.le]
    ring
  have hfar (d x y : ℚ) : 2 * |c * d| < min (c * x) (c * y) ↔ 2 * |d| < min x y := by
    rw [abs_mul, abs_of_pos hc, ← mul_min_of_nonneg _ _ hc.le, mul_left_comm, mul_lt_mul_iff_right₀ hc]
  simp only [pairType, htop, hbottom, ← mul_sub, hfar, lineDir_mul hc, mul_lt_mul_iff_right₀ hc]

theorem pairType_add (c : ℚ) : pairType (u1 + c) (u2 + c) (l1 + c) (l2 + c) f = pairType u1 u2 l1 l2 f := by
  simp only [pairType, min_add_add_right, max_add_add_right, add_sub_add_right_eq_sub]

/-- Lines without a direction are a channel. -/
theorem pairType_reflect (hf : 0 ≤ f) (hleft : l1 < u1) (C : ℚ) :
    pairType (C - l1) (C - l2) (C - u1) (C - u2) f = mirrorId (pairType u1 u2 l1 l2 f) := by
  have htop : f * (C - l1 - min (C - u1) (C - u2)) = f * (max u1 u2 - l1) := by
    rw [min_sub_sub_left]
    ring
  have hbottom : f * (max (C - l1) (C - l2) - (C - u1)) = f * (u1 - min l1 l2) := by
    rw [max_sub_sub_left]
    ring
  have htolTop : 0 ≤ f * (max u1 u2 - l1) := mul_nonneg hf (sub_nonneg.2 (hleft.le.trans (le_max_left _ _)))
  have htolBottom : 0 ≤ f * (u1 - min l1 l2) := mul_nonneg hf (sub_nonneg.2 ((min_le_left _ _).trans hleft.le))
  have hlower : C - l2 - (C - l1) = -(l2 - l1) := by ring
  have hupper : C - u2 - (C - u1) = -(u2 - u1) := by ring
  have hstart : C - l1 - (C - u1) = u1 - l1 := by ring
  have hstop : C - l2 - (C - u2) = u2 - l2 := by ring
  unfold pairType
  rw [htop, hbottom, hlower, hupper, hstart, hstop, lineDir_neg htolTop, lineDir_neg htolBottom]
  have hflat : -lineDir (f * (max u1 u2 - l1)) (l2 - l1) = 0 ∧ -lineDir (f * (u1 - min l1 l2)) (u2 - u1) = 0 ↔
      lineDir (f * (u1 - min l1 l2)) (u2 - u1) = 0 ∧ lineDir (f * (max u1 u2 - l1)) (l2 - l1) = 0 := by
    rw [neg_eq_zero, neg_eq_zero, and_comm]
  simp only [hflat]
  exact patternType_mirror _ (lineDir_mem _ _) _ (lineDir_mem _ _) _ _ _ fun h => by simp [h]

/-- Lines that meet at the end always have a type: they cannot both contract and spread. -/
theorem pairType_pos_of_meet (hf : 0 ≤ f) (hleft : l1 < u1) (hmeet : u2 = l2) : 0 < pairType u1 u2 l1 l2 f := by
  have htop : 0 ≤ f * (u1 - min l1 l2) := mul_nonneg hf (sub_nonneg.2 ((min_le_left _ _).trans hleft.le))
  have hbottom : 0 ≤ f * (max u1 u2 - l1) := mul_nonneg hf (sub_nonneg.2 (hleft.le.trans (le_max_left _ _)))
  have hwidens : decide (u1 - l1 < u2 - l2) = false := decide_eq_false (by linarith)
  have hnarrows : decide (u2 - l2 < u1 - l1) = true := decide_eq_true (by linarith)
  by_contra hzero
  simp only [pairType, hwidens, hnarrows] at hzero
  obtain ⟨hup, hdown⟩ := patternType_none _ (lineDir_mem _ _) _ (lineDir_mem _ _) _
    (not_lt.1 fun h => hzero (lt_max_of_lt_right h))
  have hrise := pos_of_lineDir htop hup
  have hfall := neg_of_lineDir hbottom hdown
  linarith

/-- The type of a line that starts above another, where the two do not meet at the end. -/
def typeAbove (u1 u2 l1 l2 flatRatio : ℚ) : ℤ := if l2 < u2 then pairType u1 u2 l1 l2 flatRatio else 0

theorem typeAbove_mul (hc : 0 < c) : typeAbove (c * u1) (c * u2) (c * l1) (c * l2) f = typeAbove u1 u2 l1 l2 f := by
  simp only [typeAbove, mul_lt_mul_iff_right₀ hc, pairType_mul hc]

theorem typeAbove_add (c : ℚ) : typeAbove (u1 + c) (u2 + c) (l1 + c) (l2 + c) f = typeAbove u1 u2 l1 l2 f := by
  simp only [typeAbove, add_lt_add_iff_right, pairType_add]

theorem typeAbove_reflect (hf : 0 ≤ f) (hleft : l1 < u1) (C : ℚ) :
    typeAbove (C - l1) (C - l2) (C - u1) (C - u2) f = mirrorId (typeAbove u1 u2 l1 l2 f) := by
  simp only [typeAbove, sub_lt_sub_iff_left, pairType_reflect hf hleft]
  split <;> rfl

variable {barDiff : ℤ}

theorem resolve_above (hbar : 0 < barDiff) (hf : 0 ≤ f) (hleft : l1 < u1) (hright : u2 ≠ l2) :
    resolvePatternTypeId u1 u2 l1 l2 barDiff f = typeAbove u1 u2 l1 l2 f := by
  rw [resolve_of_above hbar hf hleft, typeAbove]
  simp only [hright.symm.le_iff_lt]

theorem resolve_below (hbar : 0 < barDiff) (hf : 0 ≤ f) (hleft : l1 < u1) :
    resolvePatternTypeId l1 l2 u1 u2 barDiff f = typeAbove u1 u2 l1 l2 f := resolve_of_below hbar hf hleft

end laws

/-! ## Symmetry -/

/-- The type keeps when the lines change places or the prices are scaled or moved, and turns upside down with them. -/
structure Symmetric (t1p1 t1p2 t2p1 t2p2 : ℚ) (barDiff : ℤ) (flatRatio : ℚ) : Prop where
  swap : resolvePatternTypeId t2p1 t2p2 t1p1 t1p2 barDiff flatRatio =
    resolvePatternTypeId t1p1 t1p2 t2p1 t2p2 barDiff flatRatio
  scale : ∀ c > 0, resolvePatternTypeId (c * t1p1) (c * t1p2) (c * t2p1) (c * t2p2) barDiff flatRatio =
    resolvePatternTypeId t1p1 t1p2 t2p1 t2p2 barDiff flatRatio
  shift : ∀ c, resolvePatternTypeId (t1p1 + c) (t1p2 + c) (t2p1 + c) (t2p2 + c) barDiff flatRatio =
    resolvePatternTypeId t1p1 t1p2 t2p1 t2p2 barDiff flatRatio
  reflect : ∀ C, resolvePatternTypeId (C - t1p1) (C - t1p2) (C - t2p1) (C - t2p2) barDiff flatRatio =
    mirrorId (resolvePatternTypeId t1p1 t1p2 t2p1 t2p2 barDiff flatRatio)

section symmetry
variable {u1 u2 l1 l2 f : ℚ} {barDiff : ℤ}

/-- Lines that meet at the end have a type one way round only. -/
theorem swap_of_meet (hbar : 0 < barDiff) (hf : 0 ≤ f) (hleft : l1 < u1) (hmeet : u2 = l2) :
    resolvePatternTypeId l1 l2 u1 u2 barDiff f ≠ resolvePatternTypeId u1 u2 l1 l2 barDiff f := by
  rw [resolve_of_above hbar hf hleft, resolve_of_below hbar hf hleft, if_neg hmeet.not_gt, if_pos hmeet.ge]
  exact (pairType_pos_of_meet hf hleft hmeet).ne

theorem symmetric_of_above (hbar : 0 < barDiff) (hf : 0 ≤ f) (hleft : l1 < u1) :
    Symmetric u1 u2 l1 l2 barDiff f ↔ u2 ≠ l2 := by
  constructor
  · intro h hmeet
    exact swap_of_meet hbar hf hleft hmeet h.swap
  · intro hright
    have htype := resolve_above hbar hf hleft hright
    refine ⟨(resolve_below hbar hf hleft).trans htype.symm, fun c hc => ?_, fun c => ?_, fun C => ?_⟩ <;> rw [htype]
    · have hright' : c * u2 ≠ c * l2 := fun heq => hright (mul_left_cancel₀ hc.ne' heq)
      rw [resolve_above hbar hf (mul_lt_mul_of_pos_left hleft hc) hright', typeAbove_mul hc]
    · have hright' : u2 + c ≠ l2 + c := fun heq => hright (add_right_cancel heq)
      rw [resolve_above hbar hf (add_lt_add_left hleft c) hright', typeAbove_add]
    · rw [resolve_below hbar hf (sub_lt_sub_left hleft C), typeAbove_reflect hf hleft]

theorem symmetric_of_below (hbar : 0 < barDiff) (hf : 0 ≤ f) (hleft : l1 < u1) :
    Symmetric l1 l2 u1 u2 barDiff f ↔ l2 ≠ u2 := by
  constructor
  · intro h hmeet
    exact swap_of_meet hbar hf hleft hmeet.symm h.swap.symm
  · intro hright
    have htype := @resolve_below u1 u2 l1 l2 f barDiff hbar hf hleft
    refine ⟨(resolve_above hbar hf hleft hright.symm).trans htype.symm, fun c hc => ?_, fun c => ?_, fun C => ?_⟩ <;>
      rw [htype]
    · rw [resolve_below hbar hf (mul_lt_mul_of_pos_left hleft hc), typeAbove_mul hc]
    · rw [resolve_below hbar hf (add_lt_add_left hleft c), typeAbove_add]
    · have hright' : C - l2 ≠ C - u2 := fun heq => hright (sub_right_injective heq)
      rw [resolve_above hbar hf (sub_lt_sub_left hleft C) hright', typeAbove_reflect hf hleft]

end symmetry

/-- **Symmetry of the type**, for lines that start apart: it holds exactly where they do not meet at the end. -/
theorem symmetric_iff (t1p1 t1p2 t2p1 t2p2 : ℚ) (barDiff : ℤ) (flatRatio : ℚ) (hstart : t1p1 ≠ t2p1) (hbar : 0 < barDiff)
    (hflat : 0 ≤ flatRatio) : Symmetric t1p1 t1p2 t2p1 t2p2 barDiff flatRatio ↔ t1p2 ≠ t2p2 := by
  rcases lt_or_gt_of_ne hstart with hbelow | habove
  · exact symmetric_of_below hbar hflat hbelow
  · exact symmetric_of_above hbar hflat habove

theorem symmetric_wedge : Symmetric 110 106 90 100 20 (1 / 5) ↔ (106 : ℚ) ≠ 100 :=
  symmetric_iff 110 106 90 100 20 (1 / 5) (by norm_num) (by norm_num) (by norm_num)

/-- An apex is a converging triangle from above, and nothing from below or upside down. -/
theorem apex_not_symmetric : resolvePatternTypeId 110 100 90 100 20 (1 / 5) = 11
    ∧ resolvePatternTypeId 90 100 110 100 20 (1 / 5) = 0
    ∧ resolvePatternTypeId (200 - 110) (200 - 100) (200 - 90) (200 - 100) 20 (1 / 5) = 0
    ∧ ¬ Symmetric 110 100 90 100 20 (1 / 5) := by
  refine ⟨by decide +kernel, by decide +kernel, by decide +kernel, fun h => ?_⟩
  exact absurd h.swap (by decide +kernel)

/-! ## What a type says -/

/-- The lines from `u1` to `u2` and from `l1` to `l2` are as the type has them. -/
structure Describes (id : ℤ) (u1 u2 l1 l2 : ℚ) : Prop where
  above : l1 < u1 ∧ l2 < u2
  widens : 4 ≤ id → id ≤ 8 → u1 - l1 < u2 - l2
  narrows : 9 ≤ id → id ≤ 13 → u2 - l2 < u1 - l1
  rise : id ∈ [(1 : ℤ), 4, 9] → u1 < u2 ∧ l1 < l2
  fall : id ∈ [(2 : ℤ), 5, 10] → u2 < u1 ∧ l2 < l1
  spread : id = 6 → u1 < u2 ∧ l2 < l1
  close : id = 11 → u2 < u1 ∧ l1 < l2

/-- A type describes the lines, whichever of them is the upper one. -/
def Sound (t1p1 t1p2 t2p1 t2p2 : ℚ) (barDiff : ℤ) (flatRatio : ℚ) : Prop :=
  ∀ id, resolvePatternTypeId t1p1 t1p2 t2p1 t2p2 barDiff flatRatio = id → 0 < id →
    Describes id t1p1 t1p2 t2p1 t2p2 ∨ Describes id t2p1 t2p2 t1p1 t1p2

theorem pairType_describes {u1 u2 l1 l2 f : ℚ} {id : ℤ} (hf : 0 ≤ f) (hleft : l1 < u1) (hright : l2 < u2)
    (h : pairType u1 u2 l1 l2 f = id) (hid : 0 < id) : Describes id u1 u2 l1 l2 := by
  have htop : 0 ≤ f * (u1 - min l1 l2) := mul_nonneg hf (sub_nonneg.2 ((min_le_left _ _).trans hleft.le))
  have hbottom : 0 ≤ f * (max u1 u2 - l1) := mul_nonneg hf (sub_nonneg.2 (hleft.le.trans (le_max_left _ _)))
  have hu := lineDir_mem (f * (u1 - min l1 l2)) (u2 - u1)
  have hl := lineDir_mem (f * (max u1 u2 - l1)) (l2 - l1)
  have hrise {x y t : ℚ} (ht : 0 ≤ t) (hdir : 0 < lineDir t (y - x)) : x < y := sub_pos.1 (pos_of_lineDir ht hdir)
  have hfall {x y t : ℚ} (ht : 0 ≤ t) (hdir : lineDir t (y - x) < 0) : y < x := sub_neg.1 (neg_of_lineDir ht hdir)
  simp only [pairType] at h
  have htype := ((max_eq_iff.1 h).resolve_left fun hzero => hid.ne hzero.1).1
  subst htype
  obtain ⟨hwidens, hnarrows⟩ := patternType_width _ hu _ hl _ _ _
  obtain ⟨hspread, hclose⟩ := patternType_opposed _ hu _ hl _ _ _
  refine ⟨⟨hleft, hright⟩, fun hlow hhigh => of_decide_eq_true (hwidens hlow hhigh),
    fun hlow _ => of_decide_eq_true (hnarrows hlow), fun hid => ?_, fun hid => ?_, fun hid => ?_, fun hid => ?_⟩
  · obtain ⟨hup, hlower⟩ := patternType_rising _ hu _ hl _ _ _ (fun hflat => decide_eq_true (.inr hflat)) hid
    refine ⟨hrise htop hup, ?_⟩
    rcases hlower with hlower | hcontracts
    · exact hrise hbottom hlower
    · -- the gap narrows under a rising line
      have hgap := of_decide_eq_true hcontracts
      have hupper := hrise htop hup
      linarith
  · obtain ⟨hdown, hupper⟩ := patternType_falling _ hu _ hl _ _ _ hid
    refine ⟨?_, hfall hbottom hdown⟩
    rcases hupper with hupper | hcontracts
    · exact hfall htop hupper
    · have hgap := of_decide_eq_true hcontracts
      have hlower := hfall hbottom hdown
      linarith
  · exact ⟨hrise htop (hspread hid).1, hfall hbottom (hspread hid).2⟩
  · exact ⟨hfall htop (hclose hid).1, hrise hbottom (hclose hid).2⟩

/-- **What a type says** is so of the lines, exactly unless the first comes down or up to the second at the end. -/
theorem patternType_sound_iff (t1p1 t1p2 t2p1 t2p2 : ℚ) (barDiff : ℤ) (flatRatio : ℚ) (hbar : 0 < barDiff)
    (hflat : 0 < flatRatio) : Sound t1p1 t1p2 t2p1 t2p2 barDiff flatRatio ↔ ¬ (t2p1 < t1p1 ∧ t1p2 = t2p2) := by
  rcases lt_trichotomy t1p1 t2p1 with hbelow | heq | habove
  · refine iff_of_true (fun id h hid => .inr ?_) fun h => hbelow.not_gt h.1
    rw [resolve_of_below hbar hflat.le hbelow] at h
    split at h
    · rename_i hright
      exact pairType_describes hflat.le hbelow hright h hid
    · exact absurd h hid.ne
  · refine iff_of_true (fun id h hid => ?_) fun h => h.1.ne' heq
    rw [resolvePatternTypeId_of_eq heq] at h
    exact absurd h hid.ne
  · constructor
    · rintro hsound ⟨-, hmeet⟩
      have htype := @resolve_of_above t1p1 t1p2 t2p1 t2p2 flatRatio barDiff hbar hflat.le habove
      rw [if_pos hmeet.ge] at htype
      rcases hsound _ htype (pairType_pos_of_meet hflat.le habove hmeet) with h | h
      · exact h.above.2.ne' hmeet
      · exact h.above.2.ne hmeet
    · intro hmeet id h hid
      rw [resolve_of_above hbar hflat.le habove] at h
      split at h
      · rename_i hright
        have hright' : t2p2 < t1p2 := hright.lt_of_ne fun heq => hmeet ⟨habove, heq.symm⟩
        exact .inl (pairType_describes hflat.le habove hright' h hid)
      · exact absurd h hid.ne

theorem sound_wedge : Sound 110 106 90 100 20 (1 / 5) ↔ ¬ ((90 : ℚ) < 110 ∧ (106 : ℚ) = 100) :=
  patternType_sound_iff 110 106 90 100 20 (1 / 5) (by norm_num) (by norm_num)

/-- Neither line is above the other at the end of the apex. -/
theorem apex_not_sound : resolvePatternTypeId 110 100 90 100 20 (1 / 5) = 11 ∧ ¬ Sound 110 100 90 100 20 (1 / 5) := by
  have htype : resolvePatternTypeId 110 100 90 100 20 (1 / 5) = 11 := by decide +kernel
  refine ⟨htype, fun h => ?_⟩
  rcases h 11 htype (by decide) with hdescribes | hdescribes
  · exact lt_irrefl _ hdescribes.above.2
  · exact lt_irrefl _ hdescribes.above.2

end Qtss.ChartPatterns
