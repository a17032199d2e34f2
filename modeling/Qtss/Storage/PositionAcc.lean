import Mathlib.Algebra.Order.Field.Rat
import Mathlib.Algebra.BigOperators.Group.List.Basic
import Qtss.Domain
import Qtss.Lib.AverageCost
import Qtss.Lib.Runs
/-
# The positions behind the rollups (`qtss-storage/src/pnl.rs`)

| here | there |
| --- | --- |
| `PositionAcc`         | `PositionAcc` (pnl.rs:82) |
| `applyFillToPosition` | `apply_fill_to_position` (:320): the position after the fill, what it realises, whether a trade is closed |

The position is a book at average cost (`applyFill_toBook`), so what it has realised is the cash of its
fills plus what the open quantity was entered for (`realised_eq`). The `closed_trade` flag asks for a
quantity of exactly zero after the fill, so a fill that takes the position to the other side realises all of
it and still closes no trade (`closes_iff`).
-/

namespace Qtss.Storage.Pnl
open Runs AverageCost

structure PositionAcc where
  qty : ℚ
  avgCostQuotePerBase : ℚ
deriving DecidableEq

def PositionAcc.empty : PositionAcc := ⟨0, 0⟩

/-- pnl.rs:320. -/
def applyFillToPosition (p : PositionAcc) (deltaQty fillPrice : ℚ) : PositionAcc × ℚ × Bool :=
  if deltaQty = 0 ∨ fillPrice ≤ 0 then (p, 0, false)
  else
    let qtyBefore := p.qty
    if qtyBefore = 0 then (⟨deltaQty, fillPrice⟩, 0, false)
    else if (qtyBefore > 0 ∧ deltaQty > 0) ∨ (qtyBefore < 0 ∧ deltaQty < 0) then
      let absBefore := |qtyBefore|
      let absDelta := |deltaQty|
      let absAfter := absBefore + absDelta
      let costBefore := p.avgCostQuotePerBase * absBefore
      let costDelta := fillPrice * absDelta
      (⟨qtyBefore + deltaQty, (costBefore + costDelta) / absAfter⟩, 0, false)
    else
      let absBefore := |qtyBefore|
      let absDelta := |deltaQty|
      let closedAbs := min absBefore absDelta
      let realized :=
        if qtyBefore > 0 then (fillPrice - p.avgCostQuotePerBase) * closedAbs
        else if qtyBefore < 0 then (p.avgCostQuotePerBase - fillPrice) * closedAbs
        else 0
      let remainingDeltaAbs := absDelta - closedAbs
      let nextQty := qtyBefore + deltaQty
      let closedTrade := absBefore > 0 ∧ nextQty = 0
      if nextQty = 0 then (⟨0, 0⟩, realized, closedTrade)
      else if remainingDeltaAbs > 0 then
        (⟨if deltaQty > 0 then remainingDeltaAbs else -remainingDeltaAbs, fillPrice⟩, realized, closedTrade)
      else ({ p with qty := nextQty }, realized, closedTrade)

/-! ## The five routes -/

section routes
variable {p : PositionAcc} {d price : ℚ}

theorem apply_open (hd : d ≠ 0) (hprice : 0 < price) (hq : p.qty = 0) :
    applyFillToPosition p d price = (⟨d, price⟩, 0, false) := by
  simp [applyFillToPosition, hd, hprice.not_ge, hq]

theorem apply_add (hprice : 0 < price) (h : 0 < p.qty * d) :
    applyFillToPosition p d price =
      (⟨p.qty + d, (p.avgCostQuotePerBase * |p.qty| + price * |d|) / (|p.qty| + |d|)⟩, 0, false) := by
  have hq : p.qty ≠ 0 := left_ne_zero_of_mul h.ne'
  have hd : d ≠ 0 := right_ne_zero_of_mul h.ne'
  have hdir : (p.qty > 0 ∧ d > 0) ∨ (p.qty < 0 ∧ d < 0) := pos_and_pos_or_neg_and_neg_of_mul_pos h
  simp [applyFillToPosition, hd, hprice.not_ge, hq, hdir]

/-- A fill against the position realises the distance to its cost on what it takes out of it. -/
theorem apply_against (hprice : 0 < price) (h : p.qty * d < 0) :
    applyFillToPosition p d price =
      (if p.qty + d = 0 then ⟨0, 0⟩
        else if |p.qty| < |d| then ⟨p.qty + d, price⟩ else { p with qty := p.qty + d },
        if |p.qty| < |d| then p.qty * (price - p.avgCostQuotePerBase)
          else -d * (price - p.avgCostQuotePerBase),
        decide (p.qty + d = 0)) := by
  have hq : p.qty ≠ 0 := left_ne_zero_of_mul h.ne
  have hd : d ≠ 0 := right_ne_zero_of_mul h.ne
  have hdir : ¬ ((p.qty > 0 ∧ d > 0) ∨ (p.qty < 0 ∧ d < 0)) := by
    rintro (⟨hp, hn⟩ | ⟨hp, hn⟩)
    · exact (mul_pos hp hn).not_gt h
    · exact (mul_pos_of_neg_of_neg hp hn).not_gt h
  unfold applyFillToPosition
  simp only
  rw [if_neg (by simp [hd, hprice]), if_neg hq, if_neg hdir]
  rcases mul_neg_iff.1 h with ⟨hp, hn⟩ | ⟨hp, hn⟩
  · -- a sale out of a long position
    rw [abs_of_pos hp, abs_of_neg hn, if_pos hp, if_neg hn.not_gt]
    by_cases hlt : p.qty < -d
    · have hleft : 0 < -d - p.qty := by linarith
      have hne : p.qty + d ≠ 0 := by linarith
      simp only [min_eq_left hlt.le, gt_iff_lt, hleft, hne, hlt, and_false, if_true, if_false]
      rw [neg_sub, sub_neg_eq_add, mul_comm]
    · have hle : -d ≤ p.qty := not_lt.1 hlt
      simp only [min_eq_right hle, gt_iff_lt, sub_self, lt_irrefl, hlt, hp, true_and, if_false]
      rw [mul_comm]
      split <;> rfl
  · -- a purchase back into a short one
    rw [abs_of_neg hp, abs_of_pos hn, if_neg hp.not_gt, if_pos hp, if_pos hn]
    by_cases hlt : -p.qty < d
    · have hleft : 0 < d - -p.qty := by linarith
      have hne : p.qty + d ≠ 0 := by linarith
      simp only [min_eq_left hlt.le, gt_iff_lt, hleft, hne, hlt, and_false, if_true, if_false]
      rw [sub_neg_eq_add, add_comm d, mul_neg, ← neg_mul, neg_sub, mul_comm]
    · have hle : d ≤ -p.qty := not_lt.1 hlt
      simp only [min_eq_right hle, gt_iff_lt, sub_self, lt_irrefl, hlt, neg_pos, hp, true_and, if_false]
      rw [← neg_sub price, neg_mul, neg_mul, mul_comm]
      split <;> rfl

theorem apply_close (hprice : 0 < price) (hq : p.qty ≠ 0) (h : p.qty + d = 0) :
    applyFillToPosition p d price =
      (⟨0, 0⟩, -d * (price - p.avgCostQuotePerBase), true) := by
  have hd : d = -p.qty := by linarith
  have hneg : p.qty * d < 0 := by
    rw [hd, mul_neg, neg_neg_iff_pos]
    exact mul_self_pos.2 hq
  have hnot : ¬ |p.qty| < |d| := by simp [hd]
  rw [apply_against hprice hneg]
  simp [h, hnot]

theorem apply_reduce (hprice : 0 < price) (h : p.qty * d < 0) (hlt : |d| < |p.qty|) :
    applyFillToPosition p d price =
      ({ p with qty := p.qty + d }, -d * (price - p.avgCostQuotePerBase), false) := by
  have hne : p.qty + d ≠ 0 := by
    intro h0
    have : |d| = |p.qty| := by rw [eq_neg_of_add_eq_zero_left h0, abs_neg]
    exact hlt.ne this
  rw [apply_against hprice h]
  simp [hne, hlt.not_gt]

theorem apply_flip (hprice : 0 < price) (h : p.qty * d < 0) (hlt : |p.qty| < |d|) :
    applyFillToPosition p d price =
      (⟨p.qty + d, price⟩, p.qty * (price - p.avgCostQuotePerBase), false) := by
  have hne : p.qty + d ≠ 0 := by
    intro h0
    have : |d| = |p.qty| := by rw [eq_neg_of_add_eq_zero_left h0, abs_neg]
    exact hlt.ne' this
  rw [apply_against hprice h]
  simp [hne, hlt]

/-- A fill falls into exactly one of these. -/
theorem fill_cases (hd : d ≠ 0) : p.qty = 0 ∨ 0 < p.qty * d ∨ (p.qty ≠ 0 ∧ p.qty + d = 0) ∨
    (p.qty * d < 0 ∧ |d| < |p.qty|) ∨ (p.qty * d < 0 ∧ |p.qty| < |d|) := by
  by_cases hq : p.qty = 0
  · exact .inl hq
  rcases lt_or_gt_of_ne (mul_ne_zero hq hd) with hneg | hpos
  · rcases lt_trichotomy |d| |p.qty| with hlt | heq | hgt
    · exact .inr (.inr (.inr (.inl ⟨hneg, hlt⟩)))
    · -- of opposite sign and the same size
      rcases abs_eq_abs.1 heq with h | h
      · rw [h] at hneg
        exact absurd hneg (mul_self_nonneg _).not_gt
      · exact .inr (.inr (.inl ⟨hq, by rw [h, add_neg_cancel]⟩))
    · exact .inr (.inr (.inr (.inr ⟨hneg, hgt⟩)))
  · exact .inr (.inl hpos)

end routes

theorem mul_add_of_mul_neg {q d : ℚ} (h : q * d < 0) : q * (q + d) = |q| * (|q| - |d|) := by
  rw [mul_add, mul_sub, abs_mul_abs_self, ← abs_mul, abs_of_neg h, sub_neg_eq_add]

/-- The average of two lots on one side costs what the lots cost. -/
theorem mul_add_mul_avg {a b x y : ℚ} (h : 0 < a * b) :
    (a + b) * ((x * |a| + y * |b|) / (|a| + |b|)) = a * x + b * y := by
  rcases mul_pos_iff.1 h with ⟨ha, hb⟩ | ⟨ha, hb⟩
  · have hne : a + b ≠ 0 := (add_pos ha hb).ne'
    rw [abs_of_pos ha, abs_of_pos hb, mul_div_cancel₀ _ hne]
    ring
  · have hne : -a + -b ≠ 0 := (add_pos (neg_pos.2 ha) (neg_pos.2 hb)).ne'
    rw [abs_of_neg ha, abs_of_neg hb]
    field_simp
    ring

/-! ## The book behind a position -/

/-- A fill of some quantity at some price. -/
structure Fill where
  deltaQty : ℚ
  price : ℚ
  delta_ne : deltaQty ≠ 0
  price_pos : 0 < price

def PositionAcc.fill (p : PositionAcc) (f : Fill) : PositionAcc := (applyFillToPosition p f.deltaQty f.price).1

def PositionAcc.realised (p : PositionAcc) (f : Fill) : ℚ := (applyFillToPosition p f.deltaQty f.price).2.1

def PositionAcc.closes (p : PositionAcc) (f : Fill) : Bool := (applyFillToPosition p f.deltaQty f.price).2.2

/-- What the open quantity was entered for. -/
def PositionAcc.cost (p : PositionAcc) : ℚ := p.qty * p.avgCostQuotePerBase

def PositionAcc.toBook (p : PositionAcc) (realised : ℚ) : Book ℚ := ⟨p.qty, p.cost, realised⟩

variable {p : PositionAcc} {f : Fill} {r : ℚ}

theorem toBook_ok : (p.toBook r).Ok := by
  intro h
  have hq : p.qty = 0 := h
  simp [PositionAcc.toBook, PositionAcc.cost, hq]

theorem toBook_avg (hq : p.qty ≠ 0) : (p.toBook r).avg = p.avgCostQuotePerBase := by
  simp only [PositionAcc.toBook, Book.avg, PositionAcc.cost]
  exact mul_div_cancel_left₀ _ hq

/-- **The refinement**: `apply_fill_to_position` does to the position what the fill does to the book. -/
theorem fill_toBook (p : PositionAcc) (f : Fill) (r : ℚ) :
    (p.fill f).toBook (r + p.realised f) = (p.toBook r).fill f.deltaQty f.price := by
  have hprice := f.price_pos
  unfold PositionAcc.fill PositionAcc.realised
  rcases fill_cases (p := p) f.delta_ne with hq | hadd | ⟨hq, hz⟩ | ⟨hneg, hlt⟩ | ⟨hneg, hlt⟩
  · have hbook := Book.fill_add (b := p.toBook r) (d := f.deltaQty) (p := f.price)
      (by simp [PositionAcc.toBook, hq])
    rw [apply_open f.delta_ne hprice hq, hbook]
    simp [PositionAcc.toBook, PositionAcc.cost, hq]
  · have hbook := Book.fill_add (b := p.toBook r) (p := f.price) hadd.le
    rw [apply_add hprice hadd, hbook]
    simp only [PositionAcc.toBook, PositionAcc.cost, add_zero, Book.mk.injEq, true_and, and_true]
    rw [mul_add_mul_avg hadd]
  · have hneg : p.qty * f.deltaQty < 0 := by
      rw [eq_neg_of_add_eq_zero_right hz, mul_neg, neg_neg_iff_pos]
      exact mul_self_pos.2 hq
    have hle : |f.deltaQty| ≤ |p.qty| := by rw [eq_neg_of_add_eq_zero_right hz, abs_neg]
    have hbook := Book.fill_reduce (b := p.toBook r) (p := f.price) hneg hle
    rw [apply_close hprice hq hz, hbook, toBook_avg hq]
    simp only [PositionAcc.toBook, PositionAcc.cost, hz, ← add_mul, zero_mul, neg_mul, sub_eq_add_neg]
  · have hbook := Book.fill_reduce (b := p.toBook r) (p := f.price) hneg hlt.le
    rw [apply_reduce hprice hneg hlt, hbook, toBook_avg (left_ne_zero_of_mul hneg.ne)]
    simp only [PositionAcc.toBook, PositionAcc.cost, add_mul, neg_mul, sub_eq_add_neg]
  · have hbook := Book.fill_flip (b := p.toBook r) (p := f.price) hneg hlt
    rw [apply_flip hprice hneg hlt, hbook, toBook_avg (left_ne_zero_of_mul hneg.ne)]
    rfl

/-! ## Runs of fills -/

/-- A fill against the position that leaves some of it open keeps the cost of what is left. -/
def KeepsAverage (p : PositionAcc) (f : Fill) : Prop :=
  p.qty * f.deltaQty < 0 → |f.deltaQty| < |p.qty| →
    (p.fill f).avgCostQuotePerBase = p.avgCostQuotePerBase

/-- The fill brings an open position to its end: nothing of it is left, or it is on the other side. -/
def EndsPosition (p : PositionAcc) (f : Fill) : Prop := p.qty ≠ 0 ∧ p.qty * (p.qty + f.deltaQty) ≤ 0

/-- The fill takes the position to the other side. -/
def Flips (p : PositionAcc) (f : Fill) : Prop := p.qty * (p.qty + f.deltaQty) < 0

instance (p : PositionAcc) (f : Fill) : Decidable (EndsPosition p f) :=
  inferInstanceAs (Decidable (_ ∧ _))

theorem keepsAverage (p : PositionAcc) (f : Fill) : KeepsAverage p f := by
  intro hneg hlt
  rw [PositionAcc.fill, apply_reduce f.price_pos hneg hlt]

theorem cost_fill (p : PositionAcc) (f : Fill) :
    (p.fill f).cost = p.cost + (p.realised f - -(f.deltaQty * f.price)) := by
  have hflow := Book.fill_flow (toBook_ok (p := p) (r := 0)) f.deltaQty f.price
  rw [← fill_toBook] at hflow
  simp only [PositionAcc.toBook, zero_add, zero_sub] at hflow
  linarith

/-- The flag is set by the fills that leave nothing, so it is right except where the position flips. -/
theorem closes_iff (p : PositionAcc) (f : Fill) :
    (p.closes f = true ↔ EndsPosition p f) ↔ ¬ Flips p f := by
  have hprice := f.price_pos
  unfold PositionAcc.closes EndsPosition Flips
  rcases fill_cases (p := p) f.delta_ne with hq | hadd | ⟨hq, hz⟩ | ⟨hneg, hlt⟩ | ⟨hneg, hlt⟩
  · simp [apply_open f.delta_ne hprice hq, hq]
  · have hpos : 0 < p.qty * (p.qty + f.deltaQty) := by
      rw [mul_add]
      exact add_pos_of_nonneg_of_pos (mul_self_nonneg _) hadd
    simp [apply_add hprice hadd, hpos.not_ge, hpos.le]
  · simp [apply_close hprice hq hz, hq, hz]
  · have hpos : 0 < p.qty * (p.qty + f.deltaQty) := by
      rw [mul_add_of_mul_neg hneg]
      exact mul_pos (abs_pos.2 (left_ne_zero_of_mul hneg.ne)) (sub_pos.2 hlt)
    simp [apply_reduce hprice hneg hlt, hpos.not_ge, hpos.le]
  · have hflip : p.qty * (p.qty + f.deltaQty) < 0 := by
      rw [mul_add_of_mul_neg hneg]
      exact mul_neg_of_pos_of_neg (abs_pos.2 (left_ne_zero_of_mul hneg.ne)) (sub_neg.2 hlt)
    simp [apply_flip hprice hneg hlt, left_ne_zero_of_mul hneg.ne, hflip, hflip.le]

/-- **The ledger identity**: what a run of fills realises is the cash of the fills plus the cost of what is
open at the end. -/
theorem realised_eq (fs : List Fill) : total PositionAcc.fill PositionAcc.realised .empty fs =
    -(fs.map fun f => f.deltaQty * f.price).sum + (run PositionAcc.fill .empty fs).cost := by
  have hrun := measure_run_all cost_fill .empty fs
  have hneg : (fs.map fun f => -(f.deltaQty * f.price)) =
      (fs.map fun f => f.deltaQty * f.price).map Neg.neg := by
    rw [List.map_map]
    rfl
  rw [total_sub, total_ops, hneg, ← List.sum_neg] at hrun
  have hempty : PositionAcc.empty.cost = 0 := by simp [PositionAcc.cost, PositionAcc.empty]
  linarith

/-- **The rollup's positions**: over every run of fills from an empty position, what is realised is the cash of
the fills plus the cost of what is open, a reduction keeps the average cost, and a fill counts as a closed
trade exactly when it ends the position: the last unless a fill takes the position to the other side. -/
theorem positionAcc_iff (fs : List Fill) :
    (total PositionAcc.fill PositionAcc.realised .empty fs =
        -(fs.map fun f => f.deltaQty * f.price).sum + (run PositionAcc.fill .empty fs).cost ∧
      AllSteps PositionAcc.fill (fun p f => KeepsAverage p f ∧ (p.closes f = true ↔ EndsPosition p f))
        .empty fs) ↔
    AllSteps PositionAcc.fill (fun p f => ¬ Flips p f) .empty fs := by
  rw [and_iff_right (realised_eq fs)]
  apply allSteps_congr (J := fun _ => True) (K := fun _ => True)
  · exact fun _ _ _ _ => trivial
  · intro p f _ _
    rw [closes_iff, and_iff_right (keepsAverage p f)]
  · trivial
  · exact fun _ _ => trivial

def buy (qty price : ℚ) (hq : 0 < qty) (hp : 0 < price) : Fill := ⟨qty, price, hq.ne', hp⟩

def sell (qty price : ℚ) (hq : 0 < qty) (hp : 0 < price) : Fill := ⟨-qty, price, (neg_neg_of_pos hq).ne, hp⟩

/-- One bought at 100 and three sold at 120: the long position has ended with a gain of 20, and the fill that
ends it closes no trade. -/
theorem flip_closes_nothing :
    let p := PositionAcc.empty.fill (buy 1 100 (by decide) (by decide))
    let f := sell 3 120 (by decide) (by decide)
    p.realised f = 20 ∧ EndsPosition p f ∧ p.closes f = false := by
  decide +kernel

end Qtss.Storage.Pnl
