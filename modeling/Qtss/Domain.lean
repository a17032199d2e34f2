import Mathlib.Data.Rat.Defs
/-
# `qtss-domain`: the types the crates hand to each other

| here | there |
| --- | --- |
| `ℚ`                 | `rust_decimal::Decimal`, read as exact rationals |
| `Uuid`, `DateTime`  | `uuid::Uuid`, `chrono::DateTime<Utc>` (seconds since the epoch); only compared and copied |
| `Text`              | a `format!`ed message: the literal pieces and the `Decimal`s between them |
| `Side`, `SizingHint`, `TradeIntent`, `OrderRequest`, `ApprovedIntent`, `RiskRejection` | `v2/intent.rs` |
| `Target`            | `v2/detection.rs`; `weight` is what `Decimal::from_f32_retain` makes of the `f32` (`none` for NaN and the infinities) |
| `Instrument`        | `v2/instrument.rs`, the symbol only |
| `ExecutionMode`     | `execution.rs:31` (`RunMode` is an alias of it) |
| `OrderSide`, `MarketSegment`, `InstrumentId` | `orders.rs`, `exchange.rs`, `symbol.rs` |
-/

namespace Qtss

abbrev Uuid := Nat
abbrev DateTime := Int

/-- A piece of a message: literal text, or a `Decimal` put in with `{}`. -/
inductive Piece where
  | lit (s : String)
  | dec (q : ℚ)
deriving DecidableEq

abbrev Text := List Piece

inductive Side where
  | long | short
deriving DecidableEq, Repr

inductive OrderType where
  | market | limit | stop | stopLimit | oco | iceberg
deriving DecidableEq, Repr

inductive TimeInForce where
  | gtc | ioc | fok | day | gtd
deriving DecidableEq, Repr

inductive ExecutionMode where
  | live | dry | backtest
deriving DecidableEq, Repr

inductive SizingHint where
  | riskPct (pct : ℚ)
  | kelly
  | fixedNotional (notional : ℚ)
  | volTarget
deriving DecidableEq

structure Instrument where
  symbol : String
deriving DecidableEq, Repr

structure Target where
  price : ℚ
  weight : Option ℚ
deriving DecidableEq

structure TradeIntent where
  id : Uuid
  instrument : Instrument
  side : Side
  sizing : SizingHint
  /-- `none` for market entry at the next bar. -/
  entryPrice : Option ℚ
  stopLoss : ℚ
  takeProfits : List Target
  timeInForce : TimeInForce
  mode : ExecutionMode
deriving DecidableEq

structure OrderRequest where
  clientOrderId : Uuid
  instrument : Instrument
  side : Side
  orderType : OrderType
  quantity : ℚ
  price : Option ℚ
  stopPrice : Option ℚ
  timeInForce : TimeInForce
  reduceOnly : Bool
  postOnly : Bool
  intentId : Option Uuid
deriving DecidableEq

structure ApprovedIntent where
  id : Uuid
  approvedAt : DateTime
  intent : TradeIntent
  quantity : ℚ
  notional : ℚ
  checksPassed : List String
  adjustments : List Text
deriving DecidableEq

inductive RiskRejection where
  | killSwitchActive (detail : Text)
  | maxOpenPositionsReached (current cap : Nat)
  | maxLeverageExceeded (requested cap : ℚ)
  | maxDailyLossReached (ddPct capPct : ℚ)
  | drawdownExceeded (ddPct capPct : ℚ)
  | stopDistanceTooSmall
  | invalidIntent (detail : Text)
deriving DecidableEq

/-! ## The v1 plane -/

inductive OrderSide where
  | buy | sell
deriving DecidableEq, Repr

inductive ExchangeId where
  | binance | bybit | okx | custom
deriving DecidableEq, Repr

inductive MarketSegment where
  | spot | futures | margin | options
deriving DecidableEq, Repr

structure InstrumentId where
  exchange : ExchangeId
  segment : MarketSegment
  symbol : String
deriving DecidableEq, Repr

end Qtss
