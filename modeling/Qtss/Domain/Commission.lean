import Mathlib.Algebra.Order.Field.Rat
import Qtss.Domain
/-
# Commission and v1 orders (`qtss-domain/src/commission.rs`, `orders.rs`)

| here | there |
| --- | --- |
| `CommissionQuote`, `CommissionPolicy` | commission.rs:7, :28; the quote's `source` is not read here |
| `rateFromBps`, `commissionFee`        | :53, :59 |
| `CommissionPolicy.rateForFill`        | :65; the `Err` text is the source's |
| `V1.OrderType`, `V1.OrderIntent`      | orders.rs:35, :85; `time_in_force` and `futures` are not read by the dry gateway |
-/

namespace Qtss

structure CommissionQuote where
  makerRate : ℚ
  takerRate : ℚ
deriving DecidableEq

inductive CommissionPolicy where
  | exchangeApi
  | manualBps (makerBps takerBps : UInt32)
  | exchangeApiWithFallback (fallbackMakerBps fallbackTakerBps : UInt32)
deriving DecidableEq

def rateFromBps (bps : UInt32) : ℚ := bps.toNat / 10000

/-- Notional times rate. -/
def commissionFee (notional rate : ℚ) : ℚ := notional * rate

/-- commission.rs:65. -/
def CommissionPolicy.rateForFill (self : CommissionPolicy) (isMaker : Bool)
    (fromExchange : Option CommissionQuote) : Except String ℚ :=
  match self with
  | .exchangeApi =>
    match fromExchange with
    | none => .error "borsa komisyon kotası yok (ExchangeApi)"
    | some q => .ok (if isMaker then q.makerRate else q.takerRate)
  | .manualBps makerBps takerBps => .ok (rateFromBps (if isMaker then makerBps else takerBps))
  | .exchangeApiWithFallback fallbackMakerBps fallbackTakerBps =>
    match fromExchange with
    | some q => .ok (if isMaker then q.makerRate else q.takerRate)
    | none => .ok (rateFromBps (if isMaker then fallbackMakerBps else fallbackTakerBps))

namespace V1

inductive OrderType where
  | market
  | limit (price : ℚ) (postOnly : Bool)
  | stopMarket (stopPrice : ℚ)
  | stopLimit (stopPrice limitPrice : ℚ)
  | takeProfitMarket (stopPrice : ℚ)
  | takeProfitLimit (stopPrice limitPrice : ℚ)
  | trailingStopMarket (callbackRate : ℚ)
  | trailingStopLimit (callbackRate limitOffset : ℚ)
  | iceberg (displayQuantity limitPrice : ℚ)
  | oco (primary secondary : OrderType)

structure OrderIntent where
  instrument : InstrumentId
  side : OrderSide
  quantity : ℚ
  orderType : OrderType
  requiresHumanApproval : Bool

end V1

end Qtss
