import Mathlib.Algebra.Order.Field.Rat
import Mathlib.Algebra.Order.Ring.Abs
import Mathlib.Algebra.BigOperators.Group.List.Basic
import Qtss.Domain
/-
# IQ trades (`qtss-backtest/src/iq/trade.rs`, `cost.rs`)

| here | there |
| --- | --- |
| `FillCost`, `CostModel.fillCost` | cost.rs:17, :84; the maker rate is not read |
| `TradeState`, `TradeOutcome`     | trade.rs:28, :40 |
| `IqTrade`                        | trade.rs:74, without the run's labels, the entry scores and the snapshots, which the lifecycle manager does not read |
| `IqTrade.pending`                | trade.rs:135, the only constructor |
| `IqTrade.observePath`            | trade.rs:197 |

The `f64` statistics (`max_favorable_pct`, `max_adverse_pct`, `net_pnl_pct`) are read as rationals;
nothing else depends on them. `slices` is not a field of the source: it records what `realise_slice`
has executed, oldest first, and no definition reads it.
-/

namespace Qtss.Backtest.Iq

inductive IqPolarity where
  | dip | top
deriving DecidableEq, Repr

structure FillCost where
  fee : ℚ
  slippage : ℚ
  funding : ℚ
deriving DecidableEq

def FillCost.zero : FillCost := ⟨0, 0, 0⟩

def FillCost.total (c : FillCost) : ℚ := c.fee + c.slippage + c.funding

structure CostModel where
  takerFeeRate : ℚ
  slippageRate : ℚ
  fundingRatePer8h : ℚ
deriving DecidableEq

/-- cost.rs:84. Longs pay the funding, shorts receive it. -/
def CostModel.fillCost (m : CostModel) (notional : ℚ) (holdingSecs : Int) (isLong : Bool) : FillCost :=
  let absNotional := |notional|
  let windows : ℚ := (max holdingSecs 0 : Int) / 28800
  let funding := absNotional * m.fundingRatePer8h * windows
  ⟨absNotional * m.takerFeeRate, absNotional * m.slippageRate, if isLong then funding else -funding⟩

inductive TradeState where
  | pending | opened | scalingOut | closed | aborted
deriving DecidableEq, Repr

inductive TradeOutcome where
  | takeProfitFull | takeProfitPartial | stopLoss | trailingStop | timeout | invalidated | aborted
deriving DecidableEq, Repr

/-- Which branch of `on_bar` realised a slice. -/
inductive Cause where
  | tier (i : ℕ)
  | stop | trail | invalidation | timeout
deriving DecidableEq, Repr

structure Slice where
  cause : Cause
  qty : ℚ
  price : ℚ
deriving DecidableEq

structure IqTrade where
  tradeId : Uuid
  polarity : IqPolarity
  state : TradeState
  entryBar : ℕ
  entryTime : DateTime
  entryPrice : ℚ
  stopLoss : ℚ
  takeProfits : List ℚ
  initialQty : ℚ
  remainingQty : ℚ
  maxFavorablePct : ℚ
  maxAdversePct : ℚ
  barsHeld : ℕ
  exitBar : Option ℕ
  exitTime : Option DateTime
  exitPrice : Option ℚ
  outcome : Option TradeOutcome
  grossPnl : ℚ
  netPnl : ℚ
  netPnlPct : ℚ
  costs : FillCost
  /-- PnL realised on each tier; the last entry is that of the stop / trailing / timeout fill. -/
  tierPnls : List ℚ
  tiers : tierPnls.length = takeProfits.length + 1
  slices : List Slice
deriving DecidableEq

namespace IqTrade

def long (t : IqTrade) : Bool := t.polarity = .dip

/-- "`Open` and `ScalingOut` are the only states that consume bars" (trade.rs:24). -/
def Active (t : IqTrade) : Prop := t.state = .opened ∨ t.state = .scalingOut

instance (t : IqTrade) : Decidable t.Active := inferInstanceAs (Decidable (_ ∨ _))

/-- trade.rs:135. -/
def pending (tradeId : Uuid) (polarity : IqPolarity) (entryBar : ℕ) (entryTime : DateTime)
    (entryPrice stopLoss : ℚ) (takeProfits : List ℚ) (initialQty : ℚ) : IqTrade where
  tradeId := tradeId
  polarity := polarity
  state := .pending
  entryBar := entryBar
  entryTime := entryTime
  entryPrice := entryPrice
  stopLoss := stopLoss
  takeProfits := takeProfits
  initialQty := initialQty
  remainingQty := initialQty
  maxFavorablePct := 0
  maxAdversePct := 0
  barsHeld := 0
  exitBar := none
  exitTime := none
  exitPrice := none
  outcome := none
  grossPnl := 0
  netPnl := 0
  netPnlPct := 0
  costs := .zero
  tierPnls := List.replicate (takeProfits.length + 1) 0
  tiers := List.length_replicate
  slices := []

/-- The runner's `trade.state = TradeState::Open`. -/
def opened (t : IqTrade) : IqTrade := { t with state := .opened }

/-- `f64::MIN_POSITIVE`. -/
def minPositive : ℚ := 1 / 2 ^ 1022

/-- trade.rs:197. -/
def observePath (t : IqTrade) (price : ℚ) (long : Bool) : IqTrade :=
  let entry := max t.entryPrice minPositive
  let unrealised := if long then (price - entry) / entry * 100 else (entry - price) / entry * 100
  { t with
    maxFavorablePct := if unrealised > t.maxFavorablePct then unrealised else t.maxFavorablePct
    maxAdversePct := if unrealised < t.maxAdversePct then unrealised else t.maxAdversePct
    barsHeld := min (t.barsHeld + 1) (2 ^ 32 - 1) }

/-- The pnl recorded for tier `i`. -/
def tierPnl (t : IqTrade) (i : ℕ) : ℚ := t.tierPnls.getD i 0

/-- The tiers executed so far. -/
def executedTiers (t : IqTrade) : List ℕ :=
  t.slices.filterMap fun s => match s.cause with
    | .tier i => some i
    | _ => none

end IqTrade

end Qtss.Backtest.Iq
