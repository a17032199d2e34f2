import Mathlib.Algebra.Order.Floor.Ring
import Mathlib.Data.Rat.Floor
import Qtss.Indicators.Rsi
import Qtss.Storage.LivePositions
/-
# From a candidate to a position (`qtss-worker/src/execution_bridge.rs`)

| here | there |
| --- | --- |
| `EntryConfig`, `Market`, `EntryInput` | the config keys, the market tables, and whether the two queries on `live_positions` succeed |
| `segmentFromRow`, `liquidationPrice`, `liveSide` | execution_bridge.rs:744, :902, :921 |
| `confirmationPasses`, `currentMarkFor` | :768, :862 |
| `tpTooClose`, `alreadyOpen`, `notionalCapReached` | :448, :506, :531: gates inside `build_live_position_for_mode` |
| `sizeFromRisk`         | :662 |
| `buildLivePositionForMode` | :348 |

`f64` and `Decimal` are exact rationals here but for the RSI, so the conversions between them do not fail. A failed read of
the market tables is an empty one; the config resolvers give their default themselves.

`build_live_position_for_mode` says `None` when the system org or user is unresolved and when one of four
gates stops the candidate; its callers cannot tell which. `gateStops` names the gate.
-/

namespace Qtss.Worker
open Storage Indicators Floating

/-- `f64::clamp`, `u64::clamp`. -/
def clampTo {α : Type*} [LinearOrder α] (lo hi v : α) : α := max lo (min v hi)

structure MarketKey where
  exchange : String
  segment : String
  symbol : String
  timeframe : String
deriving DecidableEq

/-- A row of `market_bars`. -/
structure MarketBar where
  open_ : ℚ
  close : ℚ
deriving DecidableEq

structure Market where
  /-- Closed bars, newest first. -/
  bars : MarketKey → List MarketBar
  /-- `market_bars_open`. -/
  openBarClose : MarketKey → Option ℚ
  lastClose : MarketKey → Option ℚ

/-- The keys `live.…` and `dry.…`; an id is `none` where the configured string is not a UUID. -/
structure ModeConfig where
  orgId : Option Uuid
  userId : Option Uuid
  defaultEquity : Option ℚ
deriving DecidableEq

structure EntryConfig where
  dry : ModeConfig
  live : ModeConfig
  /-- `account.equity_usd`. -/
  accountEquity : Option ℚ
  defaultSegment : String
  leverage : ℕ
  /-- `none` where the string is not a decimal. -/
  maintMarginRatio : Option ℚ
  confirmationEnabled : Bool
  confirmationBarDirection : Bool
  confirmationRsi : Bool
  confirmationRsiThreshold : ℚ
  minTpRemainingFraction : ℚ
  aggregateNotionalFraction : ℚ
  maxPositionFraction : ℚ
  /-- `dry.slippage_bps`. -/
  slippageBps : Option ℚ
deriving DecidableEq

structure EntryInput where
  cfg : EntryConfig
  market : Market
  countOk : Bool
  sumOk : Bool

def EntryConfig.forMode (cfg : EntryConfig) : Risk.ExecutionMode → ModeConfig
  | .dry => cfg.dry
  | .live => cfg.live

/-- `resolve_account_equity_usd` (config_tick.rs:390): master key, then the key of the mode, then 1000. -/
def EntryConfig.equity (cfg : EntryConfig) (mode : Risk.ExecutionMode) : ℚ :=
  match cfg.accountEquity.filter (· > 0) with
  | some v => v
  | none => ((cfg.forMode mode).defaultEquity.filter (· > 0)).getD 1000

def EntryConfig.leverageUsed (cfg : EntryConfig) : ℕ := clampTo 1 125 cfg.leverage

def EntryConfig.mmr (cfg : EntryConfig) : ℚ := cfg.maintMarginRatio.getD (5 / 1000)

/-! ## What a row says -/

/-- execution_bridge.rs:744. -/
def segmentFromRow (venueClass : Option String) (defaultSegment : String) : String :=
  match (venueClass.getD defaultSegment).toLower with
  | "futures" | "perp" | "perpetual" | "crypto" => "futures"
  | "spot" => "spot"
  | "margin" => "margin"
  | "options" => "options"
  | _ => defaultSegment

def liveSide : String → String
  | "long" => "BUY"
  | _ => "SELL"

/-- "Returns `None` for spot (never liquidates) or bad leverage." -/
def liquidationPrice (segment side : String) (entry : ℚ) (leverage : ℕ) (mmr : ℚ) : Option ℚ :=
  if segment = "spot" ∨ leverage = 0 then none
  else
    let invLev := 1 / (leverage : ℚ)
    match side with
    | "BUY" => some (entry * (1 - invLev + mmr))
    | "SELL" => some (entry * (1 + invLev - mmr))
    | _ => none

def entrySegment (cfg : EntryConfig) (row : SelectedCandidateRow) : String :=
  segmentFromRow row.venueClass cfg.defaultSegment

def marketKey (cfg : EntryConfig) (row : SelectedCandidateRow) : MarketKey :=
  ⟨row.exchange, entrySegment cfg row, row.symbol, row.timeframe⟩

theorem liveSide_cases (direction : String) :
    liveSide direction = "BUY" ∨ liveSide direction = "SELL" := by
  unfold liveSide
  split
  · exact .inl rfl
  · exact .inr rfl

/-! ## The gates -/

/-- The last bar does not go the way of the trade. -/
def barAgainst (side : String) (bar : MarketBar) : Bool :=
  match side with
  | "BUY" => !(bar.close > bar.open_)
  | "SELL" => !(bar.close < bar.open_)
  | _ => false

def rsiAgainst (side : String) (lastRsi threshold : F64) : Bool :=
  match side with
  | "BUY" => lt lastRsi threshold
  | "SELL" => lt (lit 100 - threshold) lastRsi
  | _ => false

/-- "Empty / insufficient data returns `true` (fail-open) so the gate never blocks during a backfill." -/
def confirmationPasses (i : EntryInput) (key : MarketKey) (side : String) : Bool :=
  let rows := (i.market.bars key).take 30
  if rows.length < 16 then true
  else
    let bars := rows.reverse
    let last := bars.getLastD ⟨0, 0⟩
    if i.cfg.confirmationBarDirection && barAgainst side last then false
    else if i.cfg.confirmationRsi then
      let threshold : F64 := lit (clampTo 20 80 i.cfg.confirmationRsiThreshold)
      let closes : List F64 := bars.map fun bar => lit bar.close
      let lastRsi := ((rsi closes 14).filter F64.isFinite).getLastD (lit 50)
      !rsiAgainst side lastRsi threshold
    else true

/-- The live bar first, then the last closed one. -/
def currentMarkFor (market : Market) (key : MarketKey) : Option ℚ :=
  market.openBarClose key <|> market.lastClose key

/-- "At least half the target distance must still be available." -/
def tpTooClose (i : EntryInput) (row : SelectedCandidateRow) : Bool :=
  match row.tpLadder.firstPrice, currentMarkFor i.market (marketKey i.cfg row) with
  | some tpPrice, some currentPrice =>
    let totalDistance := |tpPrice - row.entryPrice|
    let remaining := |tpPrice - currentPrice|
    if totalDistance > 0 then remaining / totalDistance < clampTo 0 1 i.cfg.minTpRemainingFraction
    else false
  | _, _ => false

/-- The open positions of a mode. -/
def openIn (mode : Risk.ExecutionMode) (positions : PositionTable) : PositionTable :=
  positions.filter fun p => p.mode == mode && p.closedAt.isNone

def alreadyOpen (i : EntryInput) (positions : PositionTable) (row : SelectedCandidateRow)
    (mode : Risk.ExecutionMode) : ℕ :=
  if i.countOk then
    ((openIn mode positions).filter fun p =>
      p.symbol == row.symbol && p.side == liveSide row.direction).length
  else 0

def currentOpenNotional (i : EntryInput) (positions : PositionTable) (mode : Risk.ExecutionMode) : ℚ :=
  if i.sumOk then ((openIn mode positions).map fun p => p.qtyFilled * p.entryAvg).sum else 0

def notionalCapReached (i : EntryInput) (positions : PositionTable) (mode : Risk.ExecutionMode) : Bool :=
  let aggFraction := clampTo (1 / 10) 5 i.cfg.aggregateNotionalFraction
  let maxAggregateNotional := i.cfg.equity mode * i.cfg.leverageUsed * aggFraction
  currentOpenNotional i positions mode ≥ maxAggregateNotional

inductive EntryGate where
  | confirmation | tpProximity | duplicateDirection | aggregateNotional
deriving DecidableEq, Repr

/-- The gate that stops the candidate, in the order they are asked. -/
def gateStops (i : EntryInput) (positions : PositionTable) (row : SelectedCandidateRow)
    (mode : Risk.ExecutionMode) : Option EntryGate :=
  if i.cfg.confirmationEnabled && !confirmationPasses i (marketKey i.cfg row) (liveSide row.direction) then
    some .confirmation
  else if tpTooClose i row then some .tpProximity
  else if alreadyOpen i positions row mode > 0 then some .duplicateDirection
  else if notionalCapReached i positions mode then some .aggregateNotional
  else none

/-! ## Size -/

/-- `Decimal::round_dp`: to the nearest, ties to even. -/
def roundDp (dp : ℕ) (q : ℚ) : ℚ :=
  let scaled := q * 10 ^ dp
  let down := ⌊scaled⌋
  let rest := scaled - down
  let n := if rest < 1 / 2 then down else if rest > 1 / 2 then down + 1
    else if down % 2 = 0 then down else down + 1
  n / 10 ^ dp

/-- execution_bridge.rs:662. -/
def sizeFromRisk (cfg : EntryConfig) (mode : Risk.ExecutionMode) (row : SelectedCandidateRow) : ℚ :=
  let fallback : ℚ := 1 / 100
  let equity := cfg.equity mode
  let distance := |row.entryPrice - row.slPrice|
  if equity ≤ 0 ∨ distance ≤ 0 then fallback
  else
    let rawQty := equity * row.riskPct / distance
    let maxNotional := equity * cfg.leverageUsed * clampTo (1 / 100) 1 cfg.maxPositionFraction
    if row.entryPrice > 0 then
      let qty := roundDp 4 (min rawQty (maxNotional / row.entryPrice))
      if qty ≤ 0 then fallback else qty
    else max (roundDp 4 rawQty) fallback

/-! ## The position -/

/-- "The adjustment nudges entry away from the operator's advantage"; live fills are left alone. -/
def entryAdjusted (side : String) (entry slipBps : ℚ) : ℚ :=
  if slipBps > 0 then
    match side with
    | "BUY" => entry + entry * (slipBps / 10000)
    | "SELL" => entry - entry * (slipBps / 10000)
    | _ => entry
  else entry

def slipBps (cfg : EntryConfig) : Risk.ExecutionMode → ℚ
  | .dry => cfg.slippageBps.getD 2
  | .live => 0

/-- The row that goes into `live_positions` (execution_bridge.rs:595). -/
def positionOf (cfg : EntryConfig) (orgId userId : Uuid) (row : SelectedCandidateRow)
    (mode : Risk.ExecutionMode) : InsertLivePosition :=
  let segment := entrySegment cfg row
  let side := liveSide row.direction
  let qty := sizeFromRisk cfg mode row
  let slip := slipBps cfg mode
  let entryAdj := entryAdjusted side row.entryPrice slip
  { orgId := orgId, userId := userId, setupId := some row.setupId, mode := mode,
    exchange := row.exchange, segment := segment, symbol := row.symbol, side := side,
    leverage := cfg.leverageUsed, entryAvg := entryAdj, qtyFilled := qty, qtyRemaining := qty,
    currentSl := some row.slPrice, tpLadder := row.tpLadder,
    liquidationPrice := liquidationPrice segment side row.entryPrice cfg.leverageUsed cfg.mmr,
    maintMarginRatio := some cfg.mmr, lastMark := some entryAdj,
    metadata := ⟨row.id, row.setupId, row.timeframe, row.riskPct, cfg.leverageUsed, slip, row.entryPrice⟩ }

/-- execution_bridge.rs:348. -/
def buildLivePositionForMode (i : EntryInput) (positions : PositionTable) (row : SelectedCandidateRow)
    (mode : Risk.ExecutionMode) : Option InsertLivePosition := do
  let orgId ← (i.cfg.forMode mode).orgId
  let userId ← (i.cfg.forMode mode).userId
  if (gateStops i positions row mode).isSome then none
  else some (positionOf i.cfg orgId userId row mode)

variable {i : EntryInput} {cfg : EntryConfig} {positions : PositionTable} {row : SelectedCandidateRow}
  {mode : Risk.ExecutionMode} {live : InsertLivePosition}

/-- The ids of the mode are configured. -/
def Resolved (cfg : EntryConfig) (mode : Risk.ExecutionMode) : Prop :=
  (cfg.forMode mode).orgId.isSome ∧ (cfg.forMode mode).userId.isSome

instance : Decidable (Resolved cfg mode) := inferInstanceAs (Decidable (_ ∧ _))

variable (i positions row mode) in
/-- What the callers see: a position, or `None` for five different reasons. -/
theorem build_isSome_iff : (buildLivePositionForMode i positions row mode).isSome ↔
    Resolved i.cfg mode ∧ gateStops i positions row mode = none := by
  unfold buildLivePositionForMode Resolved
  cases (i.cfg.forMode mode).orgId with
  | none => simp
  | some orgId =>
    cases (i.cfg.forMode mode).userId with
    | none => simp
    | some userId => cases gateStops i positions row mode <;> simp

theorem build_eq_some (h : buildLivePositionForMode i positions row mode = some live) :
    ∃ orgId userId, live = positionOf i.cfg orgId userId row mode := by
  unfold buildLivePositionForMode at h
  simp only [Option.bind_eq_bind, Option.bind_eq_some_iff] at h
  obtain ⟨orgId, -, userId, -, h⟩ := h
  split at h
  · simp at h
  · exact ⟨orgId, userId, (Option.some.inj h).symm⟩

/-- **A position is never empty**: the size falls back rather than come out zero. -/
theorem sizeFromRisk_pos : 0 < sizeFromRisk cfg mode row := by
  unfold sizeFromRisk
  simp only
  split
  · norm_num
  · split
    · split
      · norm_num
      · rename_i h
        exact not_le.1 h
    · exact lt_max_of_lt_right (by norm_num)

end Qtss.Worker
