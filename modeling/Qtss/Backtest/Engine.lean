import Mathlib.Algebra.Order.Field.Rat
import Mathlib.Tactic.Linarith
import Mathlib.Tactic.Ring
import Qtss.Domain
import Qtss.Lib.Runs
/-
# The bar backtest's order book-keeping (`qtss-backtest/src/engine.rs`)

| here | there |
| --- | --- |
| `OpenPosition`, `ClosedTrade`, `BacktestContext` | engine.rs:46-80 |
| `BacktestContext.maxOrderQtyBase` | `BacktestContext::max_order_qty_base` (:112) |
| `BacktestContext.marketOrder` | `BacktestContext::market_order` (:145): the result and the context after it |
| `markEquity`                  | `BacktestEngine::mark_equity` (:312) |

`market_order` opens when there is no position and closes when there is one on the other side. A
closing order takes the position out whole and settles cash and pnl on the quantity of the *order*,
so what the position holds beyond it, or falls short of it, is neither kept nor paid for.
`place_outcome` says everything one call can do; `equity_after_order_iff` and
`ledger_tied_iff` are the exact conditions under which equity and the two ledgers survive it.
`order_affordable_iff` is the agreement of the sizing helper with the order it sizes.
-/

namespace Qtss.Backtest
open Runs

structure ClosedTrade where
  entryTs : DateTime
  exitTs : DateTime
  side : OrderSide
  qty : ℚ
  entryPx : ℚ
  exitPx : ℚ
  pnl : ℚ
  fee : ℚ
deriving DecidableEq

structure OpenPosition where
  side : OrderSide
  qty : ℚ
  entryPx : ℚ
  entryTs : DateTime
  /-- Paid at the open (`ClosedTrade.fee` = entry + exit). -/
  entryFee : ℚ
  /-- Isolated margin of linear futures; zero for spot. -/
  initialMargin : ℚ
deriving DecidableEq

structure BacktestContext where
  instrument : InstrumentId
  cash : ℚ
  position : Option OpenPosition
  closedTrades : List ClosedTrade
  slippageBps : Nat
  takerFeeBps : Nat
  /-- Spot: 1; linear futures: `BacktestConfig::max_leverage`. -/
  leverage : ℚ
deriving DecidableEq

namespace BacktestContext

def new (instrument : InstrumentId) (cash : ℚ) (slippageBps takerFeeBps : Nat) (leverage : ℚ) :
    BacktestContext :=
  ⟨instrument, cash, none, [], slippageBps, takerFeeBps, leverage⟩

def linearFutures (ctx : BacktestContext) : Bool := ctx.instrument.segment == .futures

def effLeverage (ctx : BacktestContext) : ℚ := max ctx.leverage 1

/-- `fill_px` (:157): the price moved against the order by the slippage. -/
def fillPx (side : OrderSide) (price : ℚ) (slipBps : Nat) : ℚ :=
  let slip := price * slipBps / 10000
  match side with
  | .buy => price + slip
  | .sell => price - slip

/-- engine.rs:145. -/
def marketOrder (ctx : BacktestContext) (side : OrderSide) (qty price : ℚ) (ts : DateTime)
    (slipBps feeBps : Nat) : Except String Unit × BacktestContext :=
  if qty ≤ 0 then (.error "invalid_qty", ctx)
  else
    let fillPx := fillPx side price slipBps
    let notional := fillPx * qty
    let fee := notional * feeBps / 10000
    let lev := ctx.effLeverage
    match side with
    | .buy =>
      match ctx.position with
      | none =>
        if ctx.linearFutures then
          let margin := notional / lev
          if ctx.cash < margin + fee then (.error "insufficient_cash", ctx)
          else (.ok (), { ctx with
            cash := ctx.cash - (margin + fee)
            position := some ⟨.buy, qty, fillPx, ts, fee, margin⟩ })
        else
          let cost := notional + fee
          if ctx.cash < cost then (.error "insufficient_cash", ctx)
          else (.ok (), { ctx with
            cash := ctx.cash - cost
            position := some ⟨.buy, qty, fillPx, ts, fee, 0⟩ })
      | some pos =>
        if pos.side ≠ .sell then (.error "invalid_order_for_position", ctx)
        else
          -- `take()`: the short is out of the context from here on
          let taken := { ctx with position := none }
          let totalFee := pos.entryFee + fee
          let trade : ClosedTrade := ⟨pos.entryTs, ts, .sell, qty, pos.entryPx, fillPx,
            (pos.entryPx - fillPx) * qty - totalFee, totalFee⟩
          if ctx.linearFutures then
            (.ok (), { taken with
              cash := taken.cash + (pos.initialMargin + (pos.entryPx - fillPx) * qty - fee)
              closedTrades := taken.closedTrades ++ [trade] })
          else if taken.cash < notional + fee then
            (.error "insufficient_cash", { taken with position := some pos })
          else (.ok (), { taken with
            cash := taken.cash - (notional + fee)
            closedTrades := taken.closedTrades ++ [trade] })
    | .sell =>
      match ctx.position with
      | some pos =>
        if pos.side ≠ .buy then (.error "invalid_order_for_position", ctx)
        else
          let taken := { ctx with position := none }
          let totalFee := pos.entryFee + fee
          let trade : ClosedTrade := ⟨pos.entryTs, ts, pos.side, qty, pos.entryPx, fillPx,
            (fillPx - pos.entryPx) * qty - totalFee, totalFee⟩
          (.ok (), { taken with
            cash := taken.cash +
              if ctx.linearFutures then pos.initialMargin + (fillPx - pos.entryPx) * qty - fee
              else notional - fee
            closedTrades := taken.closedTrades ++ [trade] })
      | none =>
        if ctx.linearFutures then
          let margin := notional / lev
          if ctx.cash < margin + fee then (.error "insufficient_cash", ctx)
          else (.ok (), { ctx with
            cash := ctx.cash - (margin + fee)
            position := some ⟨.sell, qty, fillPx, ts, fee, margin⟩ })
        else
          (.ok (), { ctx with
            cash := ctx.cash + (notional - fee)
            position := some ⟨.sell, qty, fillPx, ts, fee, 0⟩ })

end BacktestContext

namespace BacktestContext

/-- engine.rs:112: "Max base-asset size for a new long or short open". -/
def maxOrderQtyBase (ctx : BacktestContext) (price : ℚ) : ℚ :=
  if price ≤ 0 then 0
  else
    let feeRate : ℚ := ctx.takerFeeBps / 10000
    match ctx.instrument.segment with
    | .futures =>
      let lev := ctx.effLeverage
      let unitCost := 1 / lev + feeRate
      if unitCost ≤ 0 then 0
      else
        let maxNotional := ctx.cash / unitCost
        maxNotional / price
    | _ =>
      let denom := price * (1 + feeRate)
      if denom ≤ 0 then 0 else ctx.cash / denom

end BacktestContext

/-- engine.rs:312. -/
def markEquity (ctx : BacktestContext) (barClose : ℚ) : ℚ :=
  match ctx.position with
  | none => ctx.cash
  | some p =>
    if ctx.linearFutures then
      match p.side with
      | .buy => ctx.cash + p.initialMargin + (barClose - p.entryPx) * p.qty
      | .sell => ctx.cash + p.initialMargin + (p.entryPx - barClose) * p.qty
    else
      match p.side with
      | .buy => ctx.cash + p.qty * barClose
      | .sell => ctx.cash - p.qty * barClose

/-! ## What one order can do -/

/-- The arguments of one call. -/
structure Order where
  side : OrderSide
  qty : ℚ
  price : ℚ
  ts : DateTime
  slipBps : Nat
  feeBps : Nat
deriving DecidableEq

namespace Order

def fillPx (o : Order) : ℚ := BacktestContext.fillPx o.side o.price o.slipBps
def notional (o : Order) : ℚ := o.fillPx * o.qty
def fee (o : Order) : ℚ := o.notional * o.feeBps / 10000

end Order

def BacktestContext.place (ctx : BacktestContext) (o : Order) :
    Except String Unit × BacktestContext :=
  ctx.marketOrder o.side o.qty o.price o.ts o.slipBps o.feeBps

/-- The direction of an exposure. -/
def dir : OrderSide → ℚ
  | .buy => 1
  | .sell => -1

/-- The position an order opens. -/
def Order.opened (ctx : BacktestContext) (o : Order) : OpenPosition :=
  ⟨o.side, o.qty, o.fillPx, o.ts, o.fee,
    if ctx.linearFutures then o.notional / ctx.effLeverage else 0⟩

/-- The trade an order that closes `p` records. -/
def Order.trade (p : OpenPosition) (o : Order) : ClosedTrade :=
  ⟨p.entryTs, o.ts, p.side, o.qty, p.entryPx, o.fillPx,
    dir p.side * ((o.fillPx - p.entryPx) * o.qty) - (p.entryFee + o.fee), p.entryFee + o.fee⟩

/-- What a position holds of the cash: margin for futures, the notional at entry for spot (negative
for a short, which is paid for it), and the entry fee. -/
def locked (futures : Bool) (p : OpenPosition) : ℚ :=
  if futures then p.initialMargin + p.entryFee
  else dir p.side * (p.qty * p.entryPx) + p.entryFee

/-- What an order that closes `p` pays into cash. -/
def proceeds (ctx : BacktestContext) (p : OpenPosition) (o : Order) : ℚ :=
  if ctx.linearFutures then p.initialMargin + dir p.side * ((o.fillPx - p.entryPx) * o.qty) - o.fee
  else dir p.side * o.notional - o.fee

/-- Closing a spot short has to be paid from cash. -/
def affordable (ctx : BacktestContext) (p : OpenPosition) (o : Order) : Prop :=
  ctx.linearFutures = false → p.side = .sell → o.notional + o.fee ≤ ctx.cash

instance (ctx : BacktestContext) (p : OpenPosition) (o : Order) :
    Decidable (affordable ctx p o) := by unfold affordable; infer_instance

/-- The three outcomes of an order: refused without a trace, opening, closing. An order of positive
size against a position on the other side is refused only if it cannot be paid. -/
inductive Outcome (ctx : BacktestContext) (o : Order) : Except String Unit × BacktestContext → Prop
  | refused (msg : String)
      (why : ∀ p, ctx.position = some p → p.side ≠ o.side → 0 < o.qty → ¬ affordable ctx p o) :
      Outcome ctx o (.error msg, ctx)
  | opens (hq : 0 < o.qty) (flat : ctx.position = none) :
      Outcome ctx o (.ok (), { ctx with
        cash := ctx.cash - locked ctx.linearFutures (o.opened ctx)
        position := some (o.opened ctx) })
  | closes (hq : 0 < o.qty) (p : OpenPosition) (held : ctx.position = some p)
      (opposite : p.side ≠ o.side) (paid : affordable ctx p o) :
      Outcome ctx o (.ok (), { ctx with
        cash := ctx.cash + proceeds ctx p o
        position := none
        closedTrades := ctx.closedTrades ++ [o.trade p] })

section outcome
variable {ctx : BacktestContext} {o : Order}

theorem outcome_opens {cash : ℚ} {p : OpenPosition} (hq : 0 < o.qty) (flat : ctx.position = none)
    (hp : p = o.opened ctx) (hcash : cash = ctx.cash - locked ctx.linearFutures p) :
    Outcome ctx o (.ok (), { ctx with cash := cash, position := some p }) := by
  subst hp hcash
  exact .opens hq flat

theorem outcome_closes {cash : ℚ} {p : OpenPosition} {t : ClosedTrade} (hq : 0 < o.qty)
    (held : ctx.position = some p) (opposite : p.side ≠ o.side) (paid : affordable ctx p o)
    (ht : t = o.trade p) (hcash : cash = ctx.cash + proceeds ctx p o) :
    Outcome ctx o (.ok (), { ctx with
      cash := cash, position := none, closedTrades := ctx.closedTrades ++ [t] }) := by
  subst ht hcash
  exact .closes hq p held opposite paid

/-- An order on a context without a position. -/
theorem outcome_of_flat (hq : 0 < o.qty) (hp : ctx.position = none) :
    Outcome ctx o (ctx.place o) := by
  obtain ⟨side, qty, price, ts, slipBps, feeBps⟩ := o
  have hrefused : ∀ msg, Outcome ctx ⟨side, qty, price, ts, slipBps, feeBps⟩ (.error msg, ctx) :=
    fun msg => .refused msg (by simp [hp])
  simp only [BacktestContext.place, BacktestContext.marketOrder, hq.not_ge, if_false, hp]
  cases hf : ctx.linearFutures with
  | true =>
    -- futures: the margin and the fee, whatever the side
    cases side <;> simp only [if_true] <;> split
    · exact hrefused _
    · exact outcome_opens hq hp
        (by simp [Order.opened, hf, Order.notional, Order.fee, Order.fillPx]) (by simp [locked, hf])
    · exact hrefused _
    · exact outcome_opens hq hp
        (by simp [Order.opened, hf, Order.notional, Order.fee, Order.fillPx]) (by simp [locked, hf])
  | false =>
    cases side <;> simp only [Bool.false_eq_true, if_false]
    · split
      · exact hrefused _
      · refine outcome_opens hq hp
          (by simp [Order.opened, hf, Order.notional, Order.fee, Order.fillPx]) ?_
        simp [locked, hf, dir, mul_comm]
    · -- a spot short is paid for
      refine outcome_opens hq hp
        (by simp [Order.opened, hf, Order.notional, Order.fee, Order.fillPx]) ?_
      simp only [locked, hf, dir, Bool.false_eq_true, if_false]
      ring

/-- An order on a context with a position. -/
theorem outcome_of_held {pos : OpenPosition} (hq : 0 < o.qty) (hp : ctx.position = some pos) :
    Outcome ctx o (ctx.place o) := by
  have hrefused : ∀ msg, (pos.side = o.side ∨ ¬ affordable ctx pos o) →
      Outcome ctx o (.error msg, ctx) := by
    refine fun msg h => .refused msg fun p hp' hopp _ hpaid => ?_
    obtain rfl := Option.some.inj (hp.symm.trans hp')
    exact h.elim hopp (· hpaid)
  obtain ⟨side, qty, price, ts, slipBps, feeBps⟩ := o
  simp only [BacktestContext.place, BacktestContext.marketOrder, hq.not_ge, if_false, hp]
  cases side <;> cases hs : pos.side <;>
    simp only [ne_eq, reduceCtorEq, not_false_eq_true, not_true_eq_false, if_true, if_false]
  case buy.buy => exact hrefused _ (.inl hs)
  case sell.sell => exact hrefused _ (.inl hs)
  case sell.buy =>
    refine outcome_closes hq hp (by simp [hs]) (by simp [affordable, hs]) ?_ ?_
    · simp [Order.trade, hs, dir, Order.notional, Order.fee, Order.fillPx]
    · simp [proceeds, hs, dir, Order.notional, Order.fee, Order.fillPx]
  case buy.sell =>
    cases hf : ctx.linearFutures with
    | true =>
      refine outcome_closes hq hp (by simp [hs]) (by simp [affordable, hf]) ?_ ?_
      · simp only [Order.trade, hs, dir, Order.notional, Order.fee, Order.fillPx,
          ClosedTrade.mk.injEq, true_and, and_true]
        ring
      · simp only [proceeds, hf, hs, dir, Order.notional, Order.fee, Order.fillPx, if_true]
        ring
    | false =>
      simp only [Bool.false_eq_true, if_false]
      split
      · -- the short is put back
        rename_i hcash
        have hback : ({ ctx with position := some pos } : BacktestContext) = ctx := by rw [← hp]
        rw [hback]
        exact hrefused _ (.inr fun hpaid => absurd (hpaid hf hs) (not_le.2 hcash))
      · rename_i hcash
        refine outcome_closes hq hp (by simp [hs]) (fun _ _ => not_lt.1 hcash) ?_ ?_
        · simp only [Order.trade, hs, dir, Order.notional, Order.fee, Order.fillPx,
            ClosedTrade.mk.injEq, true_and, and_true]
          ring
        · simp only [proceeds, hf, hs, dir, Order.notional, Order.fee, Order.fillPx,
            Bool.false_eq_true, if_false]
          ring

/-- **`market_order`**: every call has one of the three outcomes. -/
theorem place_outcome (ctx : BacktestContext) (o : Order) : Outcome ctx o (ctx.place o) := by
  by_cases hq : 0 < o.qty
  · cases hp : ctx.position with
    | none => exact outcome_of_flat hq hp
    | some pos => exact outcome_of_held hq hp
  · simp only [BacktestContext.place, BacktestContext.marketOrder, not_lt.1 hq, if_true]
    exact .refused _ fun _ _ _ hpos => absurd hpos hq

end outcome

@[simp] theorem linearFutures_mk (ctx : BacktestContext) (cash : ℚ) (p : Option OpenPosition)
    (ts : List ClosedTrade) (s f : Nat) (l : ℚ) :
    (BacktestContext.mk ctx.instrument cash p ts s f l).linearFutures = ctx.linearFutures := rfl

theorem dir_ne_zero (side : OrderSide) : dir side ≠ 0 := by cases side <;> simp [dir]

/-! ## The largest order -/

/-- What opening one unit takes out of the cash, the slippage left out. -/
def unitCost (ctx : BacktestContext) (price : ℚ) : ℚ :=
  price * ((if ctx.linearFutures then 1 / ctx.effLeverage else 1) + ctx.takerFeeBps / 10000)

theorem effLeverage_pos (ctx : BacktestContext) : 0 < ctx.effLeverage :=
  lt_of_lt_of_le one_pos (le_max_right _ _)

theorem takerFee_nonneg (ctx : BacktestContext) : (0 : ℚ) ≤ ctx.takerFeeBps / 10000 :=
  div_nonneg (Nat.cast_nonneg _) (by norm_num)

theorem unitCost_pos (ctx : BacktestContext) {price : ℚ} (hprice : 0 < price) :
    0 < unitCost ctx price := by
  have hfee := takerFee_nonneg ctx
  have hlev := one_div_pos.2 (effLeverage_pos ctx)
  unfold unitCost
  split
  · exact mul_pos hprice (by linarith)
  · exact mul_pos hprice (by linarith)

/-- The two guards against a divisor that is not positive are never taken. -/
theorem maxOrderQtyBase_eq (ctx : BacktestContext) {price : ℚ} (hprice : 0 < price) :
    ctx.maxOrderQtyBase price = ctx.cash / unitCost ctx price := by
  have hfee := takerFee_nonneg ctx
  have hlev := one_div_pos.2 (effLeverage_pos ctx)
  unfold BacktestContext.maxOrderQtyBase unitCost
  rw [if_neg (not_le.2 hprice)]
  by_cases hf : ctx.linearFutures = true
  · have hseg : ctx.instrument.segment = .futures := by simpa [BacktestContext.linearFutures] using hf
    simp only [hseg, hf, if_true]
    rw [if_neg (not_le.2 (by linarith)), div_div, mul_comm price]
  · have hseg : ctx.instrument.segment ≠ .futures := by simpa [BacktestContext.linearFutures] using hf
    have hdenom : ¬price * (1 + (ctx.takerFeeBps : ℚ) / 10000) ≤ 0 :=
      not_le.2 (mul_pos hprice (by linarith))
    simp only [hf, if_false, Bool.false_eq_true]
    split
    · exact absurd ‹_ ≤ _› hdenom
    · rfl

/-- The price without slippage. -/
theorem fillPx_zero (side : OrderSide) (price : ℚ) : BacktestContext.fillPx side price 0 = price := by
  cases side <;> simp [BacktestContext.fillPx]

theorem paid_iff {cash cost : ℚ} {msg : String} {refused opened : BacktestContext} :
    (if cash < cost then ((.error msg : Except String Unit), refused) else (.ok (), opened)).1 =
      .ok () ↔ cost ≤ cash := by
  split
  · rename_i hcash
    exact iff_of_false (by simp) (not_le.2 hcash)
  · rename_i hcash
    exact iff_of_true rfl (not_lt.1 hcash)

/-- An opening order succeeds when the cash covers its unit cost. -/
theorem open_ok_iff (ctx : BacktestContext) (side : OrderSide) {qty : ℚ} (price : ℚ) (ts : DateTime)
    (hflat : ctx.position = none) (hqty : 0 < qty)
    (hside : side = .buy ∨ ctx.linearFutures = true) :
    (ctx.marketOrder side qty price ts 0 ctx.takerFeeBps).1 = .ok () ↔
      qty * unitCost ctx price ≤ ctx.cash := by
  have hfutures : price * qty / ctx.effLeverage + price * qty * ctx.takerFeeBps / 10000 =
      qty * (price * (1 / ctx.effLeverage + ctx.takerFeeBps / 10000)) := by ring
  have hspot : price * qty + price * qty * ctx.takerFeeBps / 10000 =
      qty * (price * (1 + ctx.takerFeeBps / 10000)) := by ring
  unfold BacktestContext.marketOrder unitCost
  simp only [hqty.not_ge, if_false, hflat, fillPx_zero]
  cases hf : ctx.linearFutures with
  | true =>
    simp only [if_true, hfutures]
    cases side with
    | buy => exact paid_iff
    | sell => exact paid_iff
  | false =>
    obtain rfl : side = .buy := hside.resolve_right (by simp [hf])
    simp only [Bool.false_eq_true, if_false, hspot]
    exact paid_iff

/-- **order_affordable_iff**: an opening order other than a spot sale is accepted up to the largest
size and refused beyond it. -/
theorem order_affordable_iff (ctx : BacktestContext) (side : OrderSide) {qty price : ℚ}
    (ts : DateTime) (hflat : ctx.position = none) (hprice : 0 < price) (hqty : 0 < qty)
    (hside : side = .buy ∨ ctx.linearFutures = true) :
    (ctx.marketOrder side qty price ts 0 ctx.takerFeeBps).1 = .ok () ↔
      qty ≤ ctx.maxOrderQtyBase price := by
  rw [maxOrderQtyBase_eq ctx hprice, le_div_iff₀ (unitCost_pos ctx hprice)]
  exact open_ok_iff ctx side price ts hflat hqty hside

/-- Five times 10000 of futures at 100, the fee of 10 basis points reserved. -/
theorem futures_largest_order :
    ((BacktestContext.new ⟨.binance, .futures, "X"⟩ 10000 0 10 5).marketOrder .sell 497 100 0 0 10).1 =
      .ok () :=
  (order_affordable_iff (BacktestContext.new ⟨.binance, .futures, "X"⟩ 10000 0 10 5) .sell 0 rfl
    (by decide) (by decide) (.inr rfl)).2 (by decide +kernel)

/-! ## Equity -/

/-- What a position is worth in `mark_equity`. -/
def worth (futures : Bool) (p : OpenPosition) (price : ℚ) : ℚ :=
  if futures then p.initialMargin + dir p.side * ((price - p.entryPx) * p.qty)
  else dir p.side * (price * p.qty)

theorem markEquity_eq (ctx : BacktestContext) (price : ℚ) :
    markEquity ctx price =
      ctx.cash + (ctx.position.map (worth ctx.linearFutures · price)).getD 0 := by
  unfold markEquity
  cases ctx.position with
  | none => simp
  | some p =>
    simp only [Option.map_some, Option.getD_some, worth]
    cases ctx.linearFutures <;> cases p.side <;>
      simp only [dir, if_true, Bool.false_eq_true, if_false] <;> ring

/-- An opened position is worth what it locks, less the fee. -/
theorem opened_worth (ctx : BacktestContext) (o : Order) :
    worth ctx.linearFutures (o.opened ctx) o.fillPx =
      locked ctx.linearFutures (o.opened ctx) - o.fee := by
  cases hf : ctx.linearFutures <;>
    simp only [worth, locked, Order.opened, hf, if_true, Bool.false_eq_true, if_false] <;> ring

/-- A closing order pays the worth of the position, less the fee, and the excess of its quantity
over the open one. -/
theorem proceeds_worth (ctx : BacktestContext) (p : OpenPosition) (o : Order) :
    proceeds ctx p o = worth ctx.linearFutures p o.fillPx - o.fee +
      dir p.side * ((if ctx.linearFutures then o.fillPx - p.entryPx else o.fillPx) *
        (o.qty - p.qty)) := by
  unfold proceeds worth Order.notional
  split <;> ring

/-- **`equity_after_order_iff`**: without slippage an accepted order costs its fee and nothing else
exactly when it opens, or closes the quantity that is open (or closes futures at the entry price,
where every quantity is worth the same). -/
theorem equity_after_order_iff (ctx : BacktestContext) (side : OrderSide) {qty price : ℚ}
    (ts : DateTime) (feeBps : Nat) (hprice : 0 < price)
    (hok : (ctx.marketOrder side qty price ts 0 feeBps).1 = .ok ()) :
    markEquity (ctx.marketOrder side qty price ts 0 feeBps).2 price =
        markEquity ctx price - price * qty * feeBps / 10000 ↔
      ∀ p ∈ ctx.position, qty = p.qty ∨ (ctx.linearFutures = true ∧ price = p.entryPx) := by
  have hfill : Order.fillPx ⟨side, qty, price, ts, 0, feeBps⟩ = price := by
    cases side <;> simp [Order.fillPx, BacktestContext.fillPx]
  have hfee : Order.fee ⟨side, qty, price, ts, 0, feeBps⟩ = price * qty * feeBps / 10000 := by
    rw [Order.fee, Order.notional, hfill]
  have hout := place_outcome ctx ⟨side, qty, price, ts, 0, feeBps⟩
  unfold BacktestContext.place at hout
  generalize ctx.marketOrder side qty price ts 0 feeBps = r at hout hok ⊢
  cases hout with
  | refused msg => cases hok
  | opens hq flat =>
    have hworth := opened_worth ctx ⟨side, qty, price, ts, 0, feeBps⟩
    rw [hfill, hfee] at hworth
    refine iff_of_true ?_ (by simp [flat])
    simp only [markEquity_eq, flat, Option.map_some, Option.getD_some, Option.map_none,
      Option.getD_none, linearFutures_mk, hworth]
    ring
  | closes hq p held opposite paid =>
    simp only [markEquity_eq, held, Option.map_some, Option.getD_some, Option.map_none,
      Option.getD_none, proceeds_worth, hfill, hfee, Option.mem_def, Option.some.injEq,
      forall_eq']
    have hmove : ∀ x y z w : ℚ, x + (y - z + w) + 0 = x + y - z ↔ w = 0 :=
      fun x y z w => by constructor <;> intro h <;> linarith
    rw [hmove, mul_eq_zero, or_iff_right (dir_ne_zero _), mul_eq_zero, sub_eq_zero, or_comm]
    cases ctx.linearFutures <;> simp [hprice.ne', sub_eq_zero]

/-- Selling half of what was bought: the other half is gone. -/
theorem partial_exit_loses_equity :
    let ctx := BacktestContext.new ⟨.binance, .spot, "BTCUSDT"⟩ 1000 0 0 1
    let bought := (ctx.marketOrder .buy 2 100 0 0 0).2
    let sold := bought.marketOrder .sell 1 100 60 0 0
    sold.1 = .ok () ∧ markEquity bought 100 = 1000 ∧ markEquity sold.2 100 = 900 := by
  decide +kernel

/-- A short of futures covered whole at a loss: the order costs its fee. -/
theorem whole_exit_keeps_equity :
    let ctx := BacktestContext.new ⟨.binance, .futures, "BTCUSDT"⟩ 1000 0 0 5
    let short := (ctx.marketOrder .sell 2 100 0 0 10).2
    markEquity (short.marketOrder .buy 2 110 60 0 10).2 110 =
      markEquity short 110 - 110 * 2 * (10 : ℕ) / 10000 :=
  (equity_after_order_iff _ .buy 60 10 (by decide +kernel) (by decide +kernel)).2 (by decide +kernel)

/-! ## The two ledgers -/

/-- Without a position, cash is what the recorded trades made of the initial cash. -/
def LedgerTied (initial : ℚ) (ctx : BacktestContext) : Prop :=
  ctx.position = none → ctx.cash = initial + (ctx.closedTrades.map (·.pnl)).sum

/-- A call that fails leaves no trace. -/
def FailureKeeps (ctx : BacktestContext) (o : Order) : Prop :=
  ∀ msg, (ctx.place o).1 = .error msg →
    (ctx.place o).2.cash = ctx.cash ∧ (ctx.place o).2.position = ctx.position ∧
      (ctx.place o).2.closedTrades = ctx.closedTrades

/-- A spot order that closes has the open quantity (or the entry was free). -/
def ExitsWhole (ctx : BacktestContext) (o : Order) : Prop :=
  ctx.linearFutures = false → ∀ p ∈ ctx.position, p.side ≠ o.side → 0 < o.qty →
    affordable ctx p o → o.qty = p.qty ∨ p.entryPx = 0

/-- Cash and what the position locks of it, against the recorded trades. -/
def Balanced (initial : ℚ) (ctx : BacktestContext) : Prop :=
  ctx.cash + (ctx.position.map (locked ctx.linearFutures)).getD 0 =
    initial + (ctx.closedTrades.map (·.pnl)).sum

theorem failureKeeps (ctx : BacktestContext) (o : Order) : FailureKeeps ctx o := by
  intro msg h
  have hout := place_outcome ctx o
  generalize ctx.place o = r at hout h ⊢
  cases hout with
  | refused => exact ⟨rfl, rfl, rfl⟩
  | opens => cases h
  | closes => cases h

/-- What a closing order pays beyond the pnl it records: what the position locked, and for spot the
entry price of the excess quantity. -/
theorem proceeds_pnl (ctx : BacktestContext) (p : OpenPosition) (o : Order) :
    proceeds ctx p o = (o.trade p).pnl + locked ctx.linearFutures p +
      if ctx.linearFutures then 0 else dir p.side * (p.entryPx * (o.qty - p.qty)) := by
  unfold proceeds locked Order.trade Order.notional
  split <;> ring

section ledger
variable {initial : ℚ} {ctx : BacktestContext} {o : Order}

/-- A closing order keeps the balance exactly when it exits whole. -/
theorem balanced_closes_iff {p : OpenPosition} (h : Balanced initial ctx) (hq : 0 < o.qty)
    (held : ctx.position = some p) (opposite : p.side ≠ o.side) (paid : affordable ctx p o) :
    ctx.cash + proceeds ctx p o = initial + ((ctx.closedTrades ++ [o.trade p]).map (·.pnl)).sum ↔
      ExitsWhole ctx o := by
  unfold Balanced at h
  rw [held, Option.map_some, Option.getD_some] at h
  rw [proceeds_pnl, List.map_append, List.sum_append, List.map_singleton, List.sum_singleton]
  have hmove : ∀ x y : ℚ, ctx.cash + (x + locked ctx.linearFutures p + y) =
      initial + ((ctx.closedTrades.map (·.pnl)).sum + x) ↔ y = 0 :=
    fun x y => by constructor <;> intro h' <;> linarith
  rw [hmove]
  cases hf : ctx.linearFutures with
  | true => simp [ExitsWhole, hf]
  | false =>
    simp only [ExitsWhole, hf, held, opposite, hq, paid, Option.mem_def, Option.some.injEq,
      forall_eq', forall_const, ne_eq, not_false_eq_true, Bool.false_eq_true, if_false, mul_eq_zero,
      dir_ne_zero, false_or, sub_eq_zero]
    exact or_comm

theorem balanced_place (h : Balanced initial ctx) (hg : ExitsWhole ctx o) :
    Balanced initial (ctx.place o).2 := by
  have hout := place_outcome ctx o
  generalize ctx.place o = r at hout ⊢
  cases hout with
  | refused => exact h
  | opens hq flat =>
    rw [Balanced, flat] at h
    simp only [Balanced, Option.map_some, Option.getD_some, linearFutures_mk, sub_add_cancel]
    simpa using h
  | closes hq p held opposite paid =>
    simp only [Balanced, Option.map_none, Option.getD_none, add_zero]
    exact (balanced_closes_iff h hq held opposite paid).2 hg

theorem not_tied_place (h : Balanced initial ctx) (hg : ¬ ExitsWhole ctx o) :
    ¬ LedgerTied initial (ctx.place o).2 := by
  have hout := place_outcome ctx o
  generalize ctx.place o = r at hout ⊢
  cases hout with
  | refused msg why =>
    -- the order would not have been refused
    exact absurd (fun _ p held opposite hq paid => absurd paid (why p held opposite hq)) hg
  | opens hq flat =>
    exact absurd (fun _ p held => by simp [flat] at held) hg
  | closes hq p held opposite paid =>
    exact fun ht => hg ((balanced_closes_iff h hq held opposite paid).1 (ht rfl))

end ledger

def BacktestContext.step (ctx : BacktestContext) (o : Order) : BacktestContext := (ctx.place o).2

/-- **`ledger_tied_iff`**: in a run of orders on a fresh context, cash without a position is always
the initial cash and the recorded pnl, and failures leave no trace, exactly when every spot exit has
the open quantity. -/
theorem ledger_tied_iff (instrument : InstrumentId) (cash : ℚ) (slippageBps takerFeeBps : Nat)
    (leverage : ℚ) (orders : List Order) :
    let fresh := BacktestContext.new instrument cash slippageBps takerFeeBps leverage
    (AllStates BacktestContext.step (LedgerTied cash) fresh orders ∧
      AllSteps BacktestContext.step FailureKeeps fresh orders) ↔
    AllSteps BacktestContext.step ExitsWhole fresh orders := by
  intro fresh
  have hfresh : Balanced cash fresh := by simp [Balanced, fresh, BacktestContext.new]
  have htied : ∀ ctx, Balanced cash ctx → LedgerTied cash ctx := by
    intro ctx h hnone
    rw [Balanced, hnone] at h
    simpa using h
  rw [and_iff_left (allSteps_of_forall failureKeeps _ _)]
  exact @allStates_iff_allSteps _ _ _ (Balanced cash) _ _ (fun _ => True) htied
    (fun _ _ h _ hg => balanced_place h hg) (fun _ _ h _ hg => not_tied_place h hg) _ _ hfresh
    (fun _ _ => trivial)

/-- The half that was not sold is missing from cash, and no trade accounts for it. -/
theorem partial_exit_unties_ledger :
    let fresh := BacktestContext.new ⟨.binance, .spot, "BTCUSDT"⟩ 1000 0 0 1
    let ctx := run BacktestContext.step fresh [⟨.buy, 2, 100, 0, 0, 0⟩, ⟨.sell, 1, 100, 60, 0, 0⟩]
    ctx.position = none ∧ ctx.cash = 900 ∧ 1000 + (ctx.closedTrades.map (·.pnl)).sum = 1000 := by
  decide +kernel

end Qtss.Backtest
