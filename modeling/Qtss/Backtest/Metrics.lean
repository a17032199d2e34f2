import Mathlib.Order.Bounds.Basic
import Mathlib.Tactic.FieldSimp
import Mathlib.Tactic.Linarith
import Mathlib.Tactic.NormNum
import Qtss.Backtest.Optimize
import Qtss.Domain
/-
# Drawdown of an equity curve (`qtss-backtest/src/metrics.rs`)

| here | there |
| --- | --- |
| `EquityPoint` | engine.rs:40 |
| `maxDrawdown` | `max_drawdown` (metrics.rs:85): one pass with a running peak, `ddStep` one turn of its loop |

A fall is measured from the running peak, the highest point so far (`PeakDrawdown`), and a peak that is not positive
measures nothing. Falls from all earlier points (`Drawdown`) give the same minimum as long as no point is
negative: below zero a lower start gives the larger ratio.
-/

namespace Qtss.Backtest.Metrics
open Optimize (decimalMin)

structure EquityPoint where
  ts : DateTime
  equity : ℚ
deriving DecidableEq

/-- One point: the peak, then the drawdown from it. -/
def ddStep (s : ℚ × ℚ) (p : EquityPoint) : ℚ × ℚ :=
  let peak := if p.equity > s.1 then p.equity else s.1
  let dd := (p.equity - peak) / peak
  (peak, if peak > 0 then if dd < s.2 then dd else s.2 else s.2)

/-- metrics.rs:85. -/
def maxDrawdown (curve : List EquityPoint) : ℚ := (curve.foldl ddStep (decimalMin, 0)).2

/-- The peak the loop has reached. -/
def runningPeak (curve : List EquityPoint) : ℚ := (curve.foldl ddStep (decimalMin, 0)).1

/-- The fall from `a` to `b`. -/
def fall (a b : EquityPoint) : ℚ := (b.equity - a.equity) / a.equity

/-- `Q` holds of some point and of the points up to it. -/
def AtSome (curve : List EquityPoint) (Q : List EquityPoint → EquityPoint → Prop) : Prop :=
  ∃ j b, curve[j]? = some b ∧ Q (curve.take (j + 1)) b

/-- `d` is the fall to a point from a positive one among those up to it. -/
def Drawdown (curve : List EquityPoint) (d : ℚ) : Prop :=
  AtSome curve fun upTo b => ∃ a ∈ upTo, 0 < a.equity ∧ d = fall a b

/-- The same from the highest of them. -/
def PeakDrawdown (curve : List EquityPoint) (d : ℚ) : Prop :=
  AtSome curve fun upTo b => ∃ a ∈ upTo, 0 < a.equity ∧ (∀ c ∈ upTo, c.equity ≤ a.equity) ∧ d = fall a b

/-! ## The running peak -/

variable {curve : List EquityPoint}

theorem ddStep_eq (s : ℚ × ℚ) (p : EquityPoint) :
    ddStep s p = (max p.equity s.1,
      if 0 < max p.equity s.1 then min ((p.equity - max p.equity s.1) / max p.equity s.1) s.2 else s.2) := by
  simp only [ddStep, gt_iff_lt, ← max_def_lt, ← min_def_lt, max_comm s.1]

theorem runningPeak_concat (p : EquityPoint) : runningPeak (curve ++ [p]) = max p.equity (runningPeak curve) := by
  rw [runningPeak, List.foldl_append, List.foldl_cons, List.foldl_nil, ddStep_eq, runningPeak]

theorem le_runningPeak {p : EquityPoint} (hp : p ∈ curve) : p.equity ≤ runningPeak curve := by
  induction curve using List.reverseRecOn with
  | nil => cases hp
  | append_singleton curve q ih =>
    rw [runningPeak_concat]
    obtain hp | hp := List.mem_append.1 hp
    · exact (ih hp).trans (le_max_right _ _)
    · obtain rfl := List.mem_singleton.1 hp
      exact le_max_left _ _

/-- A positive peak is a point of the curve. -/
theorem runningPeak_mem (h : 0 < runningPeak curve) : ∃ p ∈ curve, p.equity = runningPeak curve := by
  induction curve using List.reverseRecOn with
  | nil => exact absurd h (by decide +kernel)
  | append_singleton curve q ih =>
    rw [runningPeak_concat] at h ⊢
    obtain hle | hlt := le_or_gt (runningPeak curve) q.equity
    · exact ⟨q, by simp, (max_eq_left hle).symm⟩
    · rw [max_eq_right hlt.le] at h ⊢
      obtain ⟨p, hp, heq⟩ := ih h
      exact ⟨p, List.mem_append_left _ hp, heq⟩

theorem maxDrawdown_concat (p : EquityPoint) :
    maxDrawdown (curve ++ [p]) =
      if 0 < runningPeak (curve ++ [p]) then
        min ((p.equity - runningPeak (curve ++ [p])) / runningPeak (curve ++ [p])) (maxDrawdown curve)
      else maxDrawdown curve := by
  rw [runningPeak_concat, maxDrawdown, List.foldl_append, List.foldl_cons, List.foldl_nil, ddStep_eq]
  rfl

/-! ## Falls -/

section
variable {p : EquityPoint} {d : ℚ} {Q : List EquityPoint → EquityPoint → Prop}

theorem getElem?_concat_iff {b : EquityPoint} {j : ℕ} :
    (curve ++ [p])[j]? = some b ↔ curve[j]? = some b ∨ j = curve.length ∧ b = p := by
  obtain hlt | rfl | hgt := lt_trichotomy j curve.length
  · rw [List.getElem?_append_left hlt]
    simp [hlt.ne]
  · simp [eq_comm]
  · rw [List.getElem?_append_right hgt.le]
    obtain ⟨k, hk⟩ := Nat.exists_eq_add_of_lt hgt
    simp [hk, Nat.add_assoc]

theorem atSome_nil : ¬ AtSome [] Q := by
  rintro ⟨j, b, hb, -⟩
  cases hb

theorem atSome_concat : AtSome (curve ++ [p]) Q ↔ AtSome curve Q ∨ Q (curve ++ [p]) p := by
  have htake {j : ℕ} {b : EquityPoint} (hb : curve[j]? = some b) :
      (curve ++ [p]).take (j + 1) = curve.take (j + 1) :=
    List.take_append_of_le_length (List.getElem?_eq_some_iff.1 hb).1
  have hall : (curve ++ [p]).take (curve.length + 1) = curve ++ [p] := List.take_of_length_le (by simp)
  constructor
  · rintro ⟨j, b, hb, hQ⟩
    obtain hb | ⟨rfl, rfl⟩ := getElem?_concat_iff.1 hb
    · exact .inl ⟨j, b, hb, htake hb ▸ hQ⟩
    · exact .inr (hall ▸ hQ)
  · rintro (⟨j, b, hb, hQ⟩ | hQ)
    · exact ⟨j, b, getElem?_concat_iff.2 (.inl hb), (htake hb).symm ▸ hQ⟩
    · exact ⟨_, p, getElem?_concat_iff.2 (.inr ⟨rfl, rfl⟩), hall.symm ▸ hQ⟩

/-- What has been seen stays when points are appended. -/
theorem AtSome.append (h : AtSome curve Q) (more : List EquityPoint) : AtSome (curve ++ more) Q := by
  obtain ⟨j, b, hb, hQ⟩ := h
  obtain ⟨hj, -⟩ := List.getElem?_eq_some_iff.1 hb
  refine ⟨j, b, by rw [List.getElem?_append_left hj, hb], ?_⟩
  rwa [List.take_append_of_le_length hj]

/-- The highest positive point is the running peak. -/
theorem highest_iff {b : EquityPoint} :
    (∃ a ∈ curve, 0 < a.equity ∧ (∀ c ∈ curve, c.equity ≤ a.equity) ∧ d = fall a b) ↔
      0 < runningPeak curve ∧ d = (b.equity - runningPeak curve) / runningPeak curve := by
  constructor
  · rintro ⟨a, ha, hpos, hmax, rfl⟩
    have hpeak : 0 < runningPeak curve := hpos.trans_le (le_runningPeak ha)
    obtain ⟨c, hc, heq⟩ := runningPeak_mem hpeak
    have hae : a.equity = runningPeak curve := le_antisymm (le_runningPeak ha) (heq ▸ hmax c hc)
    exact ⟨hpeak, by rw [fall, hae]⟩
  · rintro ⟨hpeak, rfl⟩
    obtain ⟨a, ha, heq⟩ := runningPeak_mem hpeak
    exact ⟨a, ha, heq ▸ hpeak, fun c hc => heq ▸ le_runningPeak hc, by rw [fall, heq]⟩

theorem peakDrawdown_concat :
    PeakDrawdown (curve ++ [p]) d ↔ PeakDrawdown curve d ∨
      0 < runningPeak (curve ++ [p]) ∧ d = (p.equity - runningPeak (curve ++ [p])) / runningPeak (curve ++ [p]) := by
  rw [PeakDrawdown, atSome_concat, highest_iff, PeakDrawdown]

end

/-! ## The loop computes the deepest fall -/

/-- **The loop.** Each turn takes the new point's fall from the running peak into the minimum. -/
theorem isLeast_maxDrawdown (curve : List EquityPoint) :
    IsLeast (insert 0 {d | PeakDrawdown curve d}) (maxDrawdown curve) := by
  induction curve using List.reverseRecOn with
  | nil =>
    have hnone : {d | PeakDrawdown [] d} = ∅ := by
      ext d
      simp [PeakDrawdown, atSome_nil]
    rw [hnone, insert_empty_eq]
    exact isLeast_singleton
  | append_singleton curve p ih =>
    rw [maxDrawdown_concat]
    split
    · rename_i hpeak
      have hset : insert 0 {d | PeakDrawdown (curve ++ [p]) d} =
          insert ((p.equity - runningPeak (curve ++ [p])) / runningPeak (curve ++ [p]))
            (insert 0 {d | PeakDrawdown curve d}) := by
        rw [Set.insert_comm]
        congr 1
        ext d
        simp only [Set.mem_ofPred_eq, Set.mem_insert_iff, peakDrawdown_concat, hpeak, true_and, or_comm]
      rw [hset]
      exact ih.insert _
    · rename_i hpeak
      have hset : {d | PeakDrawdown (curve ++ [p]) d} = {d | PeakDrawdown curve d} := by
        ext d
        simp only [Set.mem_ofPred_eq, peakDrawdown_concat, hpeak, false_and, or_false]
      rwa [hset]

/-! ## What follows -/

theorem maxDrawdown_nonpos (curve : List EquityPoint) : maxDrawdown curve ≤ 0 :=
  (isLeast_maxDrawdown curve).2 (Set.mem_insert 0 _)

/-- A fall to a point that is not negative takes at most all of it. -/
theorem neg_one_le_fall {a b : EquityPoint} (ha : 0 < a.equity) (hb : 0 ≤ b.equity) : -1 ≤ fall a b := by
  rw [fall, le_div_iff₀ ha]
  linarith

theorem neg_one_le_maxDrawdown (h : ∀ p ∈ curve, 0 ≤ p.equity) : -1 ≤ maxDrawdown curve := by
  obtain hzero | ⟨j, b, hb, a, -, ha, -, hfall⟩ := (isLeast_maxDrawdown curve).1
  · rw [hzero]
    norm_num
  · rw [hfall]
    exact neg_one_le_fall ha (h b (List.mem_of_getElem? hb))

theorem maxDrawdown_append (curve more : List EquityPoint) : maxDrawdown (curve ++ more) ≤ maxDrawdown curve := by
  apply (isLeast_maxDrawdown (curve ++ more)).2
  obtain hzero | hfall := (isLeast_maxDrawdown curve).1
  · exact .inl hzero
  · rw [Set.mem_ofPred_eq] at hfall
    exact .inr (Set.mem_ofPred_eq ▸ AtSome.append hfall more)

/-- To a point that is not negative the fall from the highest point is the deepest. -/
theorem fall_anti {a a' b : EquityPoint} (ha : 0 < a.equity) (hle : a.equity ≤ a'.equity) (hb : 0 ≤ b.equity) :
    fall a' b ≤ fall a b := by
  have ha' : 0 < a'.equity := ha.trans_le hle
  rw [fall, fall, sub_div, sub_div, div_self ha.ne', div_self ha'.ne']
  exact sub_le_sub_right (div_le_div_of_nonneg_left hb ha hle) 1

/-- Some point after a positive one is negative. -/
def GoesNegative (curve : List EquityPoint) : Prop :=
  AtSome curve fun upTo b => b.equity < 0 ∧ ∃ a ∈ upTo, 0 < a.equity

theorem not_goesNegative (h : ∀ p ∈ curve, 0 ≤ p.equity) : ¬ GoesNegative curve := by
  rintro ⟨j, b, hb, hneg, -⟩
  exact hneg.not_ge (h b (List.mem_of_getElem? hb))

/-- Where no point is negative, the deepest fall from any earlier point. -/
theorem isLeast_drawdown (h : ¬ GoesNegative curve) :
    IsLeast (insert 0 {d | Drawdown curve d}) (maxDrawdown curve) := by
  have hpeak := isLeast_maxDrawdown curve
  constructor
  · obtain hzero | ⟨j, b, hb, a, ha, hpos, -, hfall⟩ := hpeak.1
    · exact .inl hzero
    · exact .inr ⟨j, b, hb, a, ha, hpos, hfall⟩
  · rintro d (rfl | ⟨j, b, hb, a, ha, hpos, rfl⟩)
    · exact maxDrawdown_nonpos curve
    · have hnonneg : 0 ≤ b.equity := by
        by_contra hneg
        exact h ⟨j, b, hb, not_le.1 hneg, a, ha, hpos⟩
      -- the fall from the highest of the points up to `b` is deeper and is one the loop has seen
      obtain ⟨top, htop, heq⟩ := runningPeak_mem (hpos.trans_le (le_runningPeak ha))
      have hmax : ∀ c ∈ curve.take (j + 1), c.equity ≤ top.equity := fun c hc => heq ▸ le_runningPeak hc
      have hle : a.equity ≤ top.equity := hmax a ha
      have hseen : maxDrawdown curve ≤ fall top b :=
        hpeak.2 (.inr ⟨j, b, hb, top, htop, hpos.trans_le hle, hmax, rfl⟩)
      exact hseen.trans (fall_anti hpos hle hnonneg)

/-- The whole curve times `c`. -/
def scaled (c : ℚ) (curve : List EquityPoint) : List EquityPoint :=
  curve.map fun p => { p with equity := c * p.equity }

theorem fall_scaled {c : ℚ} (hc : 0 < c) (a b : EquityPoint) :
    fall { a with equity := c * a.equity } { b with equity := c * b.equity } = fall a b := by
  rw [fall, fall, ← mul_sub, mul_div_mul_left _ _ hc.ne']

theorem peakDrawdown_scaled {c d : ℚ} (hc : 0 < c) : PeakDrawdown (scaled c curve) d ↔ PeakDrawdown curve d := by
  simp only [PeakDrawdown, AtSome, scaled, List.getElem?_map, Option.map_eq_some_iff, ← List.map_take,
    List.mem_map, forall_exists_index, and_imp, forall_apply_eq_imp_iff₂, exists_exists_and_eq_and, mul_pos_iff_of_pos_left hc,
    mul_le_mul_iff_right₀ hc, fall_scaled hc]

theorem maxDrawdown_scaled {c : ℚ} (hc : 0 < c) : maxDrawdown (scaled c curve) = maxDrawdown curve := by
  have hset : {d | PeakDrawdown (scaled c curve) d} = {d | PeakDrawdown curve d} := by
    ext d
    exact peakDrawdown_scaled hc
  have h := isLeast_maxDrawdown (scaled c curve)
  rw [hset] at h
  exact h.unique (isLeast_maxDrawdown curve)

/-! ## The specification -/

/-- A curve that falls below zero: from 1 to −1 is deeper in proportion than from the peak. -/
theorem pairwise_minimum_fails :
    let curve : List EquityPoint := [⟨0, 1⟩, ⟨1, 2⟩, ⟨2, -1⟩]
    ¬ IsLeast (insert 0 {d | Drawdown curve d}) (maxDrawdown curve) := by
  intro curve h
  have hcode : maxDrawdown curve = -3 / 2 := by decide +kernel
  have hdeeper : Drawdown curve (-2) := ⟨2, ⟨2, -1⟩, rfl, ⟨0, 1⟩, by simp [curve], by norm_num, by norm_num [fall]⟩
  have hle : maxDrawdown curve ≤ -2 := h.2 (.inr hdeeper)
  rw [hcode] at hle
  norm_num at hle

/-- **`max_drawdown`** is the deepest fall from the running peak, and from any earlier point where the curve stays out
of the negative. -/
theorem maxDrawdown_spec (curve : List EquityPoint) :
    IsLeast (insert 0 {d | PeakDrawdown curve d}) (maxDrawdown curve) ∧
    (¬ GoesNegative curve → IsLeast (insert 0 {d | Drawdown curve d}) (maxDrawdown curve)) ∧
    ((∀ p ∈ curve, 0 ≤ p.equity) → -1 ≤ maxDrawdown curve ∧ maxDrawdown curve ≤ 0) ∧
    (∀ more, maxDrawdown (curve ++ more) ≤ maxDrawdown curve) ∧
    ∀ c, 0 < c → maxDrawdown (scaled c curve) = maxDrawdown curve := by
  refine ⟨isLeast_maxDrawdown curve, isLeast_drawdown, fun h => ?_, maxDrawdown_append curve,
    fun c hc => maxDrawdown_scaled hc⟩
  exact ⟨neg_one_le_maxDrawdown h, maxDrawdown_nonpos curve⟩

theorem maxDrawdown_spec_halved :
    let curve : List EquityPoint := [⟨0, 100⟩, ⟨1, 50⟩]
    IsLeast (insert 0 {d | Drawdown curve d}) (maxDrawdown curve) ∧ -1 ≤ maxDrawdown curve ∧
      maxDrawdown (scaled 3 curve) = maxDrawdown curve := by
  intro curve
  have hnonneg : ∀ p ∈ curve, 0 ≤ p.equity := by decide +kernel
  have hspec := maxDrawdown_spec curve
  exact ⟨hspec.2.1 (not_goesNegative hnonneg), (hspec.2.2.1 hnonneg).1, hspec.2.2.2.2 3 (by norm_num)⟩

end Qtss.Backtest.Metrics
