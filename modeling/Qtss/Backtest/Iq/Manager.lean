import Mathlib.Tactic.Linarith
import Qtss.Lib.Runs
import Qtss.Backtest.Iq.Trade
/-
# `IqLifecycleManager` (`qtss-backtest/src/iq/manager.rs`)

| here | there |
| --- | --- |
| `realiseSlice`, `finalize`, `tpFractions` | manager.rs:68, :99, :125 |
| `creditTier`      | the slot writes `trade.tier_pnls[i] = slice_pnl` (:223, :253) |
| `tpLoop`          | the tier loop (:197-233); the `Vec<bool>` of filled tiers travels with the trade |
| `stopOut`         | the stop branch (:239-277) |
| `trailingStop`    | the trailing branch (:308-372) |
| `exitAtClose`     | the body that invalidation and timeout share (:379-399, :405-425) |
| `onTrade`, `onBar` | the loop body and the loop of `on_bar` (:158-431) |

One bar runs the targets before the stop, although the module comment has the stop first; and a tier
counts as filled while its recorded pnl is positive. What that means for a run is in `Ladder.lean`
and `Stops.lean`.
-/

namespace Qtss.Backtest.Iq

structure Bar where
  index : ℕ
  time : DateTime
  high : ℚ
  low : ℚ
  close : ℚ
deriving DecidableEq

/-- The fields of `IqBacktestConfig::risk` and the hook that `on_bar` reads. -/
structure IqLifecycleManager where
  cost : CostModel
  trailingStopAtrMult : Option ℚ
  maxHoldingBars : ℕ
  invalidationCheck : Option (IqTrade → DateTime → Bool)

/-- Where `on_bar` puts a trade: into the returned list, or back into `open_trades`. -/
inductive Disposition where
  | closed (t : IqTrade)
  | keep (t : IqTrade)

def Disposition.trade : Disposition → IqTrade
  | .closed t => t
  | .keep t => t

/-- The pnl of a slice. -/
def slicePnl (entry price qty : ℚ) (long : Bool) : ℚ :=
  if long then (price - entry) * qty else (entry - price) * qty

namespace IqLifecycleManager

variable (m : IqLifecycleManager)

/-- manager.rs:68. The pnl it returns is `slicePnl`. -/
def realiseSlice (t : IqTrade) (cause : Cause) (sliceQty exitPrice : ℚ) (exitTime : DateTime)
    (long : Bool) : IqTrade :=
  let notional := exitPrice * sliceQty
  let cost := m.cost.fillCost notional (exitTime - t.entryTime) long
  let remaining := t.remainingQty - sliceQty
  { t with
    grossPnl := t.grossPnl + slicePnl t.entryPrice exitPrice sliceQty long
    costs := ⟨t.costs.fee + cost.fee, t.costs.slippage + cost.slippage,
      t.costs.funding + cost.funding⟩
    remainingQty := if remaining < 0 then 0 else remaining
    slices := t.slices ++ [⟨cause, sliceQty, exitPrice⟩] }

/-- `trade.tier_pnls[i] = pnl`. -/
def creditTier (t : IqTrade) (i : ℕ) (pnl : ℚ) : IqTrade :=
  { t with
    tierPnls := t.tierPnls.set i pnl
    tiers := by rw [List.length_set, t.tiers] }

/-- manager.rs:99. -/
def finalize (t : IqTrade) (exitBar : ℕ) (exitTime : DateTime) (exitPrice : ℚ)
    (outcome : TradeOutcome) : IqTrade :=
  if t.state = .closed ∨ t.state = .aborted then t
  else
    let netPnl := t.grossPnl - t.costs.total
    let notional := max t.entryPrice IqTrade.minPositive * max t.initialQty IqTrade.minPositive
    { t with
      state := .closed
      exitBar := some exitBar
      exitTime := some exitTime
      exitPrice := some exitPrice
      outcome := some outcome
      netPnl := netPnl
      netPnlPct := if notional > 0 then netPnl / notional * 100 else t.netPnlPct }

/-- manager.rs:125: 33/33/34 for three targets, an equal split otherwise. -/
def tpFractions (n : ℕ) : List ℚ :=
  if n = 0 then []
  else if n = 3 then [33 / 100, 33 / 100, 34 / 100]
  else List.replicate n (1 / n)

/-- The fraction of tier `i` of `n`. -/
def fraction (n i : ℕ) : ℚ := (tpFractions n).getD i 1

def crossed (bar : Bar) (long : Bool) (tp : ℚ) : Prop := if long then bar.high ≥ tp else bar.low ≤ tp

instance (bar : Bar) (long : Bool) (tp : ℚ) : Decidable (crossed bar long tp) := by
  unfold crossed
  infer_instance

/-- manager.rs:197-233, from tier `i` on. -/
def tpLoop (bar : Bar) (long : Bool) (initial : ℚ) (fractions : List ℚ) :
    ℕ → List ℚ → IqTrade × List Bool → IqTrade × List Bool
  | _, [], s => s
  | i, tp :: tps, (t, tierFilled) =>
    if i ≥ tierFilled.length then (t, tierFilled)
    else if tierFilled.getD i false then tpLoop bar long initial fractions (i + 1) tps (t, tierFilled)
    else if ¬ crossed bar long tp then
      tpLoop bar long initial fractions (i + 1) tps (t, tierFilled)
    else
      let frac := fractions.getD i 1
      let slice := min (initial * frac) t.remainingQty
      if slice ≤ 0 then (t, tierFilled)
      else
        let pnl := slicePnl t.entryPrice tp slice long
        let t := creditTier (m.realiseSlice t (.tier i) slice tp bar.time long) i pnl
        tpLoop bar long initial fractions (i + 1) tps
          ({ t with state := .scalingOut }, tierFilled.set i true)

/-- Realise what is left and write the last slot. -/
def realiseRest (t : IqTrade) (cause : Cause) (price : ℚ) (time : DateTime) (long : Bool) : IqTrade :=
  let pnl := slicePnl t.entryPrice price t.remainingQty long
  let lastIdx := t.tierPnls.length - 1
  creditTier (m.realiseSlice t cause t.remainingQty price time long) lastIdx pnl

/-- manager.rs:239-277. -/
def stopOut (bar : Bar) (long : Bool) (tierFilled : List Bool) (t : IqTrade) : IqTrade :=
  let slPrice := t.stopLoss
  let anyTp := tierFilled.any id
  let trailActive := if long then decide (slPrice > t.entryPrice) else decide (slPrice < t.entryPrice)
  let outcome : TradeOutcome :=
    if trailActive then .trailingStop else if anyTp then .takeProfitPartial else .stopLoss
  finalize (m.realiseRest t .stop slPrice bar.time long) bar.index bar.time slPrice outcome

/-- The trail in place is touched, and "has actually moved past entry" (manager.rs:314-324). -/
def touchedTrail (bar : Bar) (long : Bool) (t : IqTrade) : Bool :=
  if long then decide (bar.low ≤ t.stopLoss ∧ t.stopLoss > t.entryPrice)
  else decide (bar.high ≥ t.stopLoss ∧ t.stopLoss < t.entryPrice)

/-- "(2) tighten at bar close (next bar checks)" (manager.rs:347-370). -/
def tighten (bar : Bar) (long : Bool) (mult : ℚ) (t : IqTrade) : IqTrade :=
  let initialSlDist := |t.entryPrice - t.stopLoss|
  let trailDist := initialSlDist * mult
  let newSl := if long then bar.close - trailDist else bar.close + trailDist
  let tighter := if long then decide (newSl > t.stopLoss) else decide (newSl < t.stopLoss)
  if tighter then { t with stopLoss := newSl } else t

/-- manager.rs:308-372. -/
def trailingStop (bar : Bar) (long : Bool) (tierFilled : List Bool) (t : IqTrade) : Disposition :=
  match m.trailingStopAtrMult with
  | none => .keep t
  | some mult =>
    let anyTpFilled := tierFilled.any id
    if anyTpFilled ∧ mult > 0 then
      if touchedTrail bar long t then
        let slPrice := t.stopLoss
        .closed (finalize (m.realiseRest t .trail slPrice bar.time long) bar.index bar.time slPrice
          .trailingStop)
      else .keep (tighten bar long mult t)
    else .keep t

/-- manager.rs:379-399 and :405-425: close whatever is left at the bar's close. -/
def exitAtClose (bar : Bar) (long : Bool) (cause : Cause) (outcome : TradeOutcome) (t : IqTrade) :
    IqTrade :=
  let t := if t.remainingQty > 0 then m.realiseRest t cause bar.close bar.time long else t
  finalize t bar.index bar.time bar.close outcome

/-- The stop is touched by the bar. -/
def stopTouched (bar : Bar) (t : IqTrade) : Prop :=
  if t.long then bar.low ≤ t.stopLoss else bar.high ≥ t.stopLoss

instance (bar : Bar) (t : IqTrade) : Decidable (stopTouched bar t) := by
  unfold stopTouched
  infer_instance

/-- What follows the tier loop for a trade whose stop is (`slHit`) or is not touched. -/
def settle (bar : Bar) (long slHit : Bool) (tierFilled : List Bool) (t : IqTrade) : Disposition :=
  if slHit ∧ t.remainingQty > 0 then .closed (m.stopOut bar long tierFilled t)
  else if t.remainingQty = 0 then
    let finalTp := t.takeProfits.getLast?.getD t.entryPrice
    .closed (finalize t bar.index bar.time finalTp .takeProfitFull)
  else
    match m.trailingStop bar long tierFilled t with
    | .closed t => .closed t
    | .keep t =>
      if m.invalidationCheck.any fun check => check t bar.time then
        .closed (m.exitAtClose bar long .invalidation .invalidated t)
      else if t.barsHeld ≥ m.maxHoldingBars then
        .closed (m.exitAtClose bar long .timeout .timeout t)
      else .keep t

/-- "tier_pnls[i] > 0 means TP[i] already filled." -/
def tierFilled (t : IqTrade) : List Bool :=
  (t.tierPnls.take t.takeProfits.length).map fun p => decide (p > 0)

/-- The body of the loop of `on_bar` (manager.rs:158). -/
def onTrade (bar : Bar) (t : IqTrade) : Disposition :=
  if ¬ t.Active then
    if t.state = .closed ∨ t.state = .aborted then .closed t else .keep t
  else
    let long := t.long
    let t := t.observePath bar.close long
    let fractions := tpFractions t.takeProfits.length
    let slHit := decide (stopTouched bar t)
    let (t, filled) := m.tpLoop bar long t.initialQty fractions 0 t.takeProfits (t, tierFilled t)
    m.settle bar long slHit filled t

/-- manager.rs:146: the trades closed on the bar, and those still open. -/
def onBar (bar : Bar) (openTrades : List IqTrade) : List IqTrade × List IqTrade :=
  openTrades.foldl (fun (closedNow, keep) t =>
    match m.onTrade bar t with
    | .closed t => (closedNow ++ [t], keep)
    | .keep t => (closedNow, keep ++ [t])) ([], [])

end IqLifecycleManager

end Qtss.Backtest.Iq
