import Qtss.Json
/-
# Live fills (`qtss-storage/src/exchange_fills.rs`)

`insertIfAbsent` is `insert_if_absent` (exchange_fills.rs:40): the table afterwards, and the row if one was
inserted. The unique key is `(exchange, segment, user_id, venue_order_id, venue_trade_id)`, and to Postgres two
rows without a trade id are different (`conflicts`).
-/

namespace Qtss.Storage

structure ExchangeFillRow where
  id : Uuid
  orgId : Uuid
  userId : Uuid
  exchange : String
  segment : String
  symbol : String
  venueOrderId : ℤ
  venueTradeId : Option ℤ
  fillPrice : Option ℚ
  fillQuantity : Option ℚ
  fee : Option ℚ
  feeAsset : Option String
  eventTime : DateTime
  rawEvent : Option Json
  createdAt : DateTime

abbrev FillTable := List ExchangeFillRow

/-- `WHERE user_id AND exchange AND segment AND venue_order_id`. -/
def ExchangeFillRow.isOfOrder (f : ExchangeFillRow) (userId : Uuid) (exchange segment : String)
    (venueOrderId : ℤ) : Bool :=
  f.userId == userId && f.exchange == exchange && f.segment == segment && f.venueOrderId == venueOrderId

/-- The unique key is taken. -/
def conflicts (t : FillTable) (f : ExchangeFillRow) : Bool :=
  t.any fun g => g.isOfOrder f.userId f.exchange f.segment f.venueOrderId &&
    (f.venueTradeId.isSome && g.venueTradeId == f.venueTradeId)

/-- exchange_fills.rs:40: `ON CONFLICT … DO NOTHING`. -/
def insertIfAbsent (t : FillTable) (f : ExchangeFillRow) : FillTable × Option ExchangeFillRow :=
  if conflicts t f then (t, none) else (t ++ [f], some f)

end Qtss.Storage
