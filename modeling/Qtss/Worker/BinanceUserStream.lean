import Qtss.Storage.ExchangeFills
import Qtss.Storage.ExchangeOrders
import Qtss.Lib.Runs
/-
# The user streams (`qtss-worker/src/binance_user_stream.rs`)

| here | there |
| --- | --- |
| `isFuturesOrderTradeUpdate`, `extractFuturesOrderUpdateFields` | binance_user_stream.rs:60, :67 |
| `isSpotExecutionReport`, `extractSpotExecutionReportFields`    | :94, :101 |
| `parseDecimalStr`, `normalizeBinanceOrderStatus`               | :74, :82 |
| `handleEvent`  | one message in `futures_user_stream_for_user` (:179-300) and in `spot_user_stream_for_user` (:399-470): the same code, but for where the order stands in the payload |

The notifications that go out with a fill or a final status are left out, and so is the connection: a message
is a payload that has been read, with the id and the time that the database gives what it stores. An
event's time is kept to the second.
-/

namespace Qtss.Worker.BinanceUserStream
open Storage Runs
open Execution.Dry (trim)

inductive UserStream where
  | spot | futures
deriving DecidableEq, Repr

def UserStream.segment : UserStream → String
  | .spot => "spot"
  | .futures => "futures"

/-! ## Payloads -/

def isFuturesOrderTradeUpdate (v : Json) : Bool := (v.get "e").bind Json.asStr == some "ORDER_TRADE_UPDATE"

def extractFuturesOrderUpdateFields (v : Json) : Option (ℤ × String) := do
  let o ← v.get "o"
  let venueOrderId ← (← o.get "i").asI64
  let status ← (← o.get "X").asStr
  some (venueOrderId, status)

def isSpotExecutionReport (v : Json) : Bool := (v.get "e").bind Json.asStr == some "executionReport"

def extractSpotExecutionReportFields (v : Json) : Option (ℤ × String) := do
  let venueOrderId ← (← v.get "i").asI64
  let status ← (← v.get "X").asStr
  some (venueOrderId, status)

/-- The order id and the status of a message that is about an order. -/
def UserStream.fields (s : UserStream) (v : Json) : Option (ℤ × String) :=
  match s with
  | .spot => if isSpotExecutionReport v then extractSpotExecutionReportFields v else none
  | .futures => if isFuturesOrderTradeUpdate v then extractFuturesOrderUpdateFields v else none

/-- Where the order stands. -/
def UserStream.order (s : UserStream) (v : Json) : Option Json :=
  match s with
  | .spot => some v
  | .futures => v.get "o"

def parseDecimalStr (v : Json) : Option ℚ := do
  let s := trim (← v.asStr)
  if s = "" then none else decimalFromStr s

/-- binance_user_stream.rs:82. -/
def normalizeBinanceOrderStatus (raw : String) : OrderStatus :=
  match trim raw with
  | "NEW" => .opened
  | "PARTIALLY_FILLED" => .partiallyFilled
  | "FILLED" => .filled
  | "CANCELED" => .canceled
  | "REJECTED" => .rejected
  | "EXPIRED" => .expired
  | _ => .opened

/-! ## One message -/

structure Db where
  orders : OrderTable
  fills : FillTable

structure Message where
  payload : Json
  /-- Of the fill row, if one is inserted. -/
  fillId : Uuid
  now : DateTime

/-- Quantity and price of the last execution. -/
def lastFill (o : Json) : Option (ℚ × ℚ) := do
  let q ← (o.get "l").bind parseDecimalStr
  let p ← (o.get "L").bind parseDecimalStr
  if q > 0 ∧ p > 0 then some (q, p) else none

def tradeId (o : Json) : Option ℤ := (o.get "t").bind Json.asI64

def fillRow (s : UserStream) (orgId userId : Uuid) (venueOrderId : ℤ) (o : Json) (q p : ℚ) (m : Message) :
    ExchangeFillRow where
  id := m.fillId
  orgId := orgId
  userId := userId
  exchange := "binance"
  segment := s.segment
  symbol := ((o.get "s").bind Json.asStr).getD ""
  venueOrderId := venueOrderId
  venueTradeId := tradeId o
  fillPrice := some p
  fillQuantity := some q
  fee := (o.get "n").bind parseDecimalStr
  feeAsset := (o.get "N").bind Json.asStr
  eventTime := (((m.payload.get "T").bind Json.asI64).map (· / 1000)).getD m.now
  rawEvent := some m.payload
  createdAt := m.now

/-- binance_user_stream.rs:192-252: a fill is stored for an order whose row is there. -/
def recordFill (s : UserStream) (userId : Uuid) (venueOrderId : ℤ) (db : Db) (m : Message) : Db :=
  match s.order m.payload with
  | none => db
  | some o =>
    match lastFill o with
    | none => db
    | some (q, p) =>
      match fetchOrgIdForVenueOrder db.orders userId "binance" s.segment venueOrderId with
      | none => db
      | some orgId => { db with fills := (insertIfAbsent db.fills (fillRow s orgId userId venueOrderId o q p m)).1 }

/-- One message. -/
def handleEvent (s : UserStream) (userId : Uuid) (db : Db) (m : Message) : Db :=
  match s.fields m.payload with
  | none => db
  | some (venueOrderId, status) =>
    let db := recordFill s userId venueOrderId db m
    { db with orders := (updateStatusAndVenueResponseIfNotTerminal db.orders userId "binance" s.segment
        venueOrderId (normalizeBinanceOrderStatus status) m.payload m.now).1 }

/-! ## One order -/

/-- What a message does to one row. -/
def rowEvent (s : UserStream) (userId : Uuid) (r : ExchangeOrderRow) (m : Message) : ExchangeOrderRow :=
  match s.fields m.payload with
  | none => r
  | some (venueOrderId, status) =>
    if r.isVenueOrder userId "binance" s.segment venueOrderId && !r.status.isTerminal then
      setVenueStatus (normalizeBinanceOrderStatus status) m.payload m.now r
    else r

section
variable {s : UserStream} {userId : Uuid} {venueOrderId : ℤ} {db : Db} {m : Message}

theorem recordFill_orders : (recordFill s userId venueOrderId db m).orders = db.orders := by
  unfold recordFill
  split
  · rfl
  · split
    · rfl
    · split <;> rfl

/-- The rows are updated one by one. -/
theorem handleEvent_orders : (handleEvent s userId db m).orders = db.orders.map (rowEvent s userId · m) := by
  unfold handleEvent
  cases hfields : s.fields m.payload with
  | none => simp [rowEvent, hfields]
  | some f =>
    simp only [rowEvent, hfields, recordFill_orders]
    rfl

theorem rowEvent_isVenueOrder (r : ExchangeOrderRow) (exchange segment : String) :
    (rowEvent s userId r m).isVenueOrder userId exchange segment venueOrderId =
      r.isVenueOrder userId exchange segment venueOrderId := by
  unfold rowEvent
  split
  · rfl
  · split
    · rw [setVenueStatus_isVenueOrder]
    · rfl

/-- Without its row an event of an order leaves no trace. -/
theorem handleEvent_unknown {status : String} (hfields : s.fields m.payload = some (venueOrderId, status))
    (hnone : ∀ r ∈ db.orders, r.isVenueOrder userId "binance" s.segment venueOrderId = false) :
    handleEvent s userId db m = db := by
  have horg : fetchOrgIdForVenueOrder db.orders userId "binance" s.segment venueOrderId = none := by
    simpa [fetchOrgIdForVenueOrder] using hnone
  have hrecord : recordFill s userId venueOrderId db m = db := by
    unfold recordFill
    split
    · rfl
    · split
      · rfl
      · rw [horg]
  have hkeep : ∀ r ∈ db.orders, (if r.isVenueOrder userId "binance" s.segment venueOrderId &&
      !r.status.isTerminal then setVenueStatus (normalizeBinanceOrderStatus status) m.payload m.now r else r) = r := by
    intro r hr
    simp [hnone r hr]
  simp only [handleEvent, hfields, hrecord, updateStatusAndVenueResponseIfNotTerminal, OrderTable.update,
    List.map_congr_left hkeep, List.map_id']

end

end Qtss.Worker.BinanceUserStream
