import Mathlib.Algebra.Order.BigOperators.Group.List
import Qtss.Json
import Qtss.Storage.PositionAcc
/-
# The live rollups (`qtss-storage/src/pnl.rs`)

| here | there |
| --- | --- |
| `OrderRow`                   | the columns the rebuild selects from `exchange_orders` (pnl.rs:495) |
| `periodStarts`               | `period_starts` (:96), over `chrono`'s proleptic Gregorian calendar |
| `parseBinanceFills`, `parseBinanceOrder` | :126, :391 |
| `RollupDb`                   | `fetch_instrument_assets` (:164), `fetch_asset_price_in_quote` (:194), and `str::to_uppercase`, of which nothing is used |
| `normalizeCommissionToQuote` | :225 |
| `signedQtyDelta`             | :292 |
| `bookOrder`, `rebuildOrder`, `rebuild` | the body of the loop of `rebuild_live_rollups_from_exchange_orders` (:484), the loop, and what it inserts |

The rebuild runs in one transaction; a failed read ends it and nothing is written, so the reads here succeed.
The instrument cache only saves reads and is left out. The orders come as the query returns them, by
`updated_at`.

An order counts only as `FILLED` or `PARTIALLY_FILLED`: what was filled of an order before it was canceled or
expired is not accounted for (`volume_accounted_iff`).
-/

namespace Qtss.Storage.Pnl
open Keyed Execution.Dry

structure OrderRow where
  orgId : Uuid
  exchange : String
  segment : String
  symbol : String
  updatedAt : DateTime
  venueResponse : Json

/-! ## Periods -/

inductive PnlBucket where
  | instant | daily | weekly | monthly | yearly
deriving DecidableEq, Repr

def daySeconds : ℤ := 86400

/-- Year, month and day of a day counted from 1970-01-01. -/
def civilFromDays (day : ℤ) : ℤ × ℤ × ℤ :=
  let z := day + 719468
  let era := z / 146097
  let doe := z % 146097
  let yoe := (doe - doe / 1460 + doe / 36524 - doe / 146096) / 365
  let doy := doe - (365 * yoe + yoe / 4 - yoe / 100)
  let mp := (5 * doy + 2) / 153
  let m := if mp < 10 then mp + 3 else mp - 9
  (yoe + era * 400 + if m ≤ 2 then 1 else 0, m, doy - (153 * mp + 2) / 5 + 1)

def daysFromCivil (y m d : ℤ) : ℤ :=
  let y := if m ≤ 2 then y - 1 else y
  let yoe := y % 400
  let doy := (153 * (if m > 2 then m - 3 else m + 9) + 2) / 5 + d - 1
  y / 400 * 146097 + (yoe * 365 + yoe / 4 - yoe / 100 + doy) - 719468

/-- pnl.rs:96. -/
def periodStarts (ts : DateTime) : List (PnlBucket × DateTime) :=
  let day := ts / daySeconds
  let (y, m, _) := civilFromDays day
  -- 1970-01-01 was a Thursday
  let weekday := (day + 3) % 7
  [(.daily, day * daySeconds), (.weekly, (day - weekday) * daySeconds),
    (.monthly, daysFromCivil y m 1 * daySeconds), (.yearly, daysFromCivil y 1 1 * daySeconds)]

-- Thursday 2024-02-29, 12:00
example : periodStarts 1709208000 =
    [(.daily, 1709164800), (.weekly, 1708905600), (.monthly, 1706745600), (.yearly, 1704067200)] := by
  decide

/-! ## Venue responses -/

structure BinanceFill where
  qty : ℚ
  price : ℚ
  commission : ℚ
  commissionAsset : Option String
deriving DecidableEq

def decFromStrField : Json → String → Option ℚ := decimalField

def parseBinanceFill (f : Json) : Option BinanceFill := do
  let qty ← decFromStrField f "qty"
  let price ← decFromStrField f "price"
  let commission := (decFromStrField f "commission").getD 0
  let commissionAsset := (((f.get "commissionAsset").bind Json.asStr).map trim).filter (· ≠ "")
  if qty > 0 ∧ price > 0 then some ⟨qty, price, commission, commissionAsset⟩ else none

/-- pnl.rs:126. -/
def parseBinanceFills (v : Json) : List BinanceFill :=
  match (v.get "fills").bind Json.asArray with
  | none => []
  | some arr => arr.filterMap parseBinanceFill

inductive PositionSideKey where
  | long | short | both
deriving DecidableEq, Repr

/-- pnl.rs:278. -/
def positionSideKey (v : Json) : PositionSideKey :=
  let raw := ((v.get "positionSide").bind Json.asStr).getD "BOTH"
  if eqIgnoreAsciiCase raw "LONG" then .long
  else if eqIgnoreAsciiCase raw "SHORT" then .short
  else .both

structure ParsedBinanceOrder where
  executedQty : ℚ
  cummQuote : ℚ
  side : String
  positionSide : PositionSideKey
  fills : List BinanceFill
deriving DecidableEq

/-- The statuses that count (pnl.rs:393). -/
def countedStatus (status : String) : Bool := status == "FILLED" || status == "PARTIALLY_FILLED"

/-- pnl.rs:391. -/
def parseBinanceOrder (v : Json) : Option ParsedBinanceOrder := do
  let status ← (← v.get "status").asStr
  if !countedStatus status then none
  else
    let executedQty ← decimalFromStr ((← v.get "executedQty").asStr.getD "0")
    if executedQty ≤ 0 then none
    else
      let cummQuote ← decimalFromStr ((← v.get "cummulativeQuoteQty").asStr.getD "0")
      let side := ((v.get "side").bind Json.asStr).getD ""
      some ⟨executedQty, cummQuote, side, positionSideKey v, parseBinanceFills v⟩

/-- pnl.rs:292. -/
def signedQtyDelta (side : String) (positionSide : PositionSideKey) (qty : ℚ) : ℚ :=
  let isBuy := eqIgnoreAsciiCase side "BUY"
  let isSell := eqIgnoreAsciiCase side "SELL"
  match positionSide with
  | .long => if isBuy then qty else if isSell then -qty else 0
  | .short => if isSell then -qty else if isBuy then qty else 0
  | .both => if isBuy then qty else if isSell then -qty else 0

/-! ## Fees -/

structure InstrumentAssets where
  baseAsset : String
  quoteAsset : String
deriving DecidableEq

structure RollupDb where
  /-- `exchange`, `segment`, `symbol`. -/
  instrument : String → String → String → Option InstrumentAssets
  /-- `exchange`, `segment`, `asset`, `quote_asset`: the close nearest to the time, within ten minutes. -/
  assetPrice : String → String → String → String → DateTime → Option ℚ
  toUppercase : String → String

/-- Exchange, segment, asset, quote asset and ten-minute bucket. -/
abbrev PriceCache := HashMap (String × String × String × String × ℤ) (Option ℚ)

/-- pnl.rs:225: the commission in the quote asset. -/
def normalizeCommissionToQuote (db : RollupDb) (cache : PriceCache) (o : OrderRow) (inst : InstrumentAssets)
    (fillPriceQuotePerBase commission : ℚ) (commissionAsset : Option String) : ℚ × PriceCache :=
  if commission ≤ 0 then (0, cache)
  else
    match (commissionAsset.map trim).filter (· ≠ "") with
    | none => (commission, cache)
    | some ca =>
      if eqIgnoreAsciiCase ca inst.quoteAsset then (commission, cache)
      else if eqIgnoreAsciiCase ca inst.baseAsset then (commission * fillPriceQuotePerBase, cache)
      else
        let key := (o.exchange, o.segment, db.toUppercase ca, db.toUppercase inst.quoteAsset,
          o.updatedAt.tdiv 600)
        let (px, cache) := match cache.lookup key with
          | some hit => (hit, cache)
          | none =>
            let fetched := db.assetPrice o.exchange o.segment ca inst.quoteAsset o.updatedAt
            (fetched, cache.insert key fetched)
        match px with
        | some px => (commission * px, cache)
        -- "fee treated as zero (realized PnL may be overstated)"
        | none => (0, cache)

/-! ## The rebuild -/

structure RollupAggKey where
  orgId : Uuid
  exchange : String
  segment : String
  symbol : String
  bucket : PnlBucket
  periodStart : DateTime
deriving DecidableEq

structure RollupAcc where
  realizedPnl : ℚ
  fees : ℚ
  volume : ℚ
  tradeCount : ℤ
  closedTradeCount : ℤ
deriving DecidableEq

def RollupAcc.zero : RollupAcc := ⟨0, 0, 0, 0, 0⟩

def RollupAcc.add (a b : RollupAcc) : RollupAcc :=
  ⟨a.realizedPnl + b.realizedPnl, a.fees + b.fees, a.volume + b.volume, a.tradeCount + b.tradeCount,
    a.closedTradeCount + b.closedTradeCount⟩

/-- Segments are not told apart here. -/
structure PosKey where
  orgId : Uuid
  exchange : String
  symbol : String
  positionSide : PositionSideKey
deriving DecidableEq

/-- Where the loop stands with one order: its position, the price cache, and what the order adds to the
rollups. -/
structure Booking where
  pos : PositionAcc
  cache : PriceCache
  totals : RollupAcc

def bookFill (db : RollupDb) (o : OrderRow) (inst : InstrumentAssets) (parsed : ParsedBinanceOrder)
    (b : Booking) (f : BinanceFill) : Booking :=
  let (fee, cache) := normalizeCommissionToQuote db b.cache o inst f.price f.commission f.commissionAsset
  let dqty := signedQtyDelta parsed.side parsed.positionSide f.qty
  let (p, rp, closed) := applyFillToPosition b.pos dqty f.price
  ⟨p, cache, b.totals.add ⟨rp, fee, f.qty * f.price, 1, if closed then 1 else 0⟩⟩

/-- pnl.rs:515-559. -/
def bookOrder (db : RollupDb) (o : OrderRow) (inst : InstrumentAssets) (parsed : ParsedBinanceOrder)
    (p : PositionAcc) (cache : PriceCache) : Booking :=
  if parsed.fills ≠ [] then parsed.fills.foldl (bookFill db o inst parsed) ⟨p, cache, .zero⟩
  else
    -- "Aggregate fallback: treat it as a single fill at average price."
    let avgPx := if parsed.executedQty > 0 then parsed.cummQuote / parsed.executedQty else 0
    if avgPx > 0 then
      let dqty := signedQtyDelta parsed.side parsed.positionSide parsed.executedQty
      let (p, rp, closed) := applyFillToPosition p dqty avgPx
      ⟨p, cache, ⟨rp, 0, parsed.cummQuote, 1, if closed then 1 else 0⟩⟩
    else ⟨p, cache, .zero⟩

abbrev RollupMap := HashMap RollupAggKey RollupAcc

structure Rebuild where
  ordersWithFills : ℕ
  acc : RollupMap
  pos : HashMap PosKey PositionAcc
  priceCache : PriceCache

def Rebuild.start : Rebuild := ⟨0, ∅, ∅, ∅⟩

def OrderRow.posKey (o : OrderRow) (side : PositionSideKey) : PosKey := ⟨o.orgId, o.exchange, o.symbol, side⟩

def OrderRow.rollupKeys (o : OrderRow) : List RollupAggKey :=
  (periodStarts o.updatedAt).map fun (bucket, start) =>
    ⟨o.orgId, o.exchange, o.segment, o.symbol, bucket, start⟩

/-- `let e = acc.entry(key).or_default(); e.volume += …`. -/
def addTotals (totals : RollupAcc) (acc : RollupMap) (key : RollupAggKey) : RollupMap :=
  acc.insert key (((acc.lookup key).getD .zero).add totals)

/-- The body of the loop over the orders. -/
def rebuildOrder (db : RollupDb) (s : Rebuild) (o : OrderRow) : Rebuild :=
  match parseBinanceOrder o.venueResponse with
  | none => s
  | some parsed =>
    let s := { s with ordersWithFills := s.ordersWithFills + 1 }
    match db.instrument o.exchange o.segment o.symbol with
    | none => s
    | some inst =>
      let keyPos := o.posKey parsed.positionSide
      let b := bookOrder db o inst parsed ((s.pos.lookup keyPos).getD .empty) s.priceCache
      { s with
        pos := s.pos.insert keyPos b.pos
        priceCache := b.cache
        acc := o.rollupKeys.foldl (addTotals b.totals) s.acc }

structure PnlRebuildStats where
  ordersScanned : ℕ
  ordersWithFills : ℕ
  rollupRowsWritten : ℕ
deriving DecidableEq

/-- pnl.rs:484: what is inserted for the ledger `live`, in place of all that was there. -/
def rebuild (db : RollupDb) (orders : List OrderRow) : RollupMap × PnlRebuildStats :=
  let s := orders.foldl (rebuildOrder db) .start
  (s.acc, ⟨orders.length, s.ordersWithFills, s.acc.entries.length⟩)

/-! ## What one order adds -/

/-- The fills of an order as the position sees them: signed quantity and price. -/
def positionFills (parsed : ParsedBinanceOrder) : List (ℚ × ℚ) :=
  let delta := signedQtyDelta parsed.side parsed.positionSide
  if parsed.fills ≠ [] then parsed.fills.map fun f => (delta f.qty, f.price)
  else if parsed.executedQty > 0 ∧ parsed.cummQuote / parsed.executedQty > 0 then
    [(delta parsed.executedQty, parsed.cummQuote / parsed.executedQty)]
  else []

/-- The quote volume that is counted for an order. -/
def quoteVolume (parsed : ParsedBinanceOrder) : ℚ :=
  if parsed.fills ≠ [] then (parsed.fills.map fun f => f.qty * f.price).sum
  else if parsed.executedQty > 0 ∧ parsed.cummQuote / parsed.executedQty > 0 then parsed.cummQuote
  else 0

/-- A position, and what its fills have realised and closed so far. -/
structure Tally where
  pos : PositionAcc
  realized : ℚ
  closed : ℤ
deriving DecidableEq

def Tally.fill (t : Tally) (f : ℚ × ℚ) : Tally :=
  let (p, rp, closed) := applyFillToPosition t.pos f.1 f.2
  ⟨p, t.realized + rp, t.closed + if closed then 1 else 0⟩

def Booking.tally (b : Booking) : Tally := ⟨b.pos, b.totals.realizedPnl, b.totals.closedTradeCount⟩

section order
variable {db : RollupDb} {o : OrderRow} {inst : InstrumentAssets} {parsed : ParsedBinanceOrder}

theorem bookFill_tally (b : Booking) (f : BinanceFill) : (bookFill db o inst parsed b f).tally =
    b.tally.fill (signedQtyDelta parsed.side parsed.positionSide f.qty, f.price) := rfl

theorem bookFill_volume (b : Booking) (f : BinanceFill) :
    (bookFill db o inst parsed b f).totals.volume = b.totals.volume + f.qty * f.price := rfl

variable (db o inst parsed) in
theorem foldl_bookFill (fills : List BinanceFill) (b : Booking) :
    (fills.foldl (bookFill db o inst parsed) b).tally =
        (fills.map fun f => (signedQtyDelta parsed.side parsed.positionSide f.qty, f.price)).foldl
          Tally.fill b.tally ∧
      (fills.foldl (bookFill db o inst parsed) b).totals.volume =
        b.totals.volume + (fills.map fun f => f.qty * f.price).sum := by
  induction fills generalizing b with
  | nil => simp
  | cons f fills ih =>
    obtain ⟨htally, hvolume⟩ := ih (bookFill db o inst parsed b f)
    rw [bookFill_tally] at htally
    rw [bookFill_volume] at hvolume
    simp only [List.foldl_cons, List.map_cons, List.sum_cons]
    exact ⟨htally, by rw [hvolume, add_assoc]⟩

variable (db o inst parsed) in
/-- **One order**: its fills go through its position, and its quote volume is counted. The price cache is only
there for the fees. -/
theorem bookOrder_spec (p : PositionAcc) (cache : PriceCache) :
    (bookOrder db o inst parsed p cache).tally = (positionFills parsed).foldl Tally.fill ⟨p, 0, 0⟩ ∧
      (bookOrder db o inst parsed p cache).totals.volume = quoteVolume parsed := by
  unfold bookOrder positionFills quoteVolume
  by_cases hfills : parsed.fills ≠ []
  · have hfold := foldl_bookFill db o inst parsed parsed.fills ⟨p, cache, .zero⟩
    rw [if_pos hfills, if_pos hfills, if_pos hfills]
    refine ⟨hfold.1, hfold.2.trans ?_⟩
    simp [RollupAcc.zero]
  · rw [if_neg hfills, if_neg hfills, if_neg hfills]
    by_cases hqty : parsed.executedQty > 0
    · simp only [hqty, if_true, true_and]
      split
      · refine ⟨?_, rfl⟩
        simp [Booking.tally, Tally.fill]
      · exact ⟨rfl, rfl⟩
    · simp [hqty, Booking.tally, RollupAcc.zero]

end order

/-! ## Every executed quantity -/

/-- What the rollups of a symbol are kept under. -/
structure SymbolKey where
  orgId : Uuid
  exchange : String
  segment : String
  symbol : String
deriving DecidableEq

def OrderRow.symbolKey (o : OrderRow) : SymbolKey := ⟨o.orgId, o.exchange, o.segment, o.symbol⟩

def RollupAggKey.symbolKey (k : RollupAggKey) : SymbolKey := ⟨k.orgId, k.exchange, k.segment, k.symbol⟩

/-- The volume of the yearly rows of a symbol. -/
def yearlyVolume (k : SymbolKey) (acc : RollupMap) : ℚ :=
  sumEntries (fun key v => if key.bucket = .yearly ∧ key.symbolKey = k then v.volume else 0) acc

theorem yearlyVolume_addTotals (k : SymbolKey) (totals : RollupAcc) (acc : RollupMap) (key : RollupAggKey) :
    yearlyVolume k (addTotals totals acc key) =
      yearlyVolume k acc + if key.bucket = .yearly ∧ key.symbolKey = k then totals.volume else 0 := by
  apply sumEntries_upsert
  · simp [RollupAcc.zero]
  · intro u v
    split
    · rfl
    · simp

/-- An order adds its volume to one yearly row. -/
theorem yearlyVolume_order (k : SymbolKey) (totals : RollupAcc) (acc : RollupMap) (o : OrderRow) :
    yearlyVolume k (o.rollupKeys.foldl (addTotals totals) acc) =
      yearlyVolume k acc + if o.symbolKey = k then totals.volume else 0 := by
  simp only [OrderRow.rollupKeys, periodStarts, List.map_cons, List.map_nil, List.foldl_cons, List.foldl_nil,
    yearlyVolume_addTotals, reduceCtorEq, false_and, if_false, add_zero, true_and]
  rfl

/-- A row whose `venue_response` is a REST order payload: the quantities are those of one order, and the fills
that come with it add up to them. -/
structure RestOrder extends OrderRow where
  status : String
  executedQty : ℚ
  cummulativeQuoteQty : ℚ
  status_eq : venueResponse.get "status" = some (.str status)
  executedQty_eq : ∃ s, venueResponse.get "executedQty" = some (.str s) ∧ decimalFromStr s = some executedQty
  cummulativeQuoteQty_eq : ∃ s, venueResponse.get "cummulativeQuoteQty" = some (.str s) ∧
    decimalFromStr s = some cummulativeQuoteQty
  executedQty_nonneg : 0 ≤ executedQty
  cummulativeQuoteQty_nonneg : 0 ≤ cummulativeQuoteQty
  unexecuted : executedQty = 0 → cummulativeQuoteQty = 0
  fills_add_up : parseBinanceFills venueResponse ≠ [] →
    ((parseBinanceFills venueResponse).map (·.qty)).sum = executedQty ∧
    ((parseBinanceFills venueResponse).map fun f => f.qty * f.price).sum = cummulativeQuoteQty

namespace RestOrder
variable {r : RestOrder}

theorem parse (r : RestOrder) : parseBinanceOrder r.venueResponse =
    if countedStatus r.status ∧ 0 < r.executedQty then
      some ⟨r.executedQty, r.cummulativeQuoteQty, ((r.venueResponse.get "side").bind Json.asStr).getD "",
        positionSideKey r.venueResponse, parseBinanceFills r.venueResponse⟩
    else none := by
  obtain ⟨s, hs, hexec⟩ := r.executedQty_eq
  obtain ⟨q, hq, hcumm⟩ := r.cummulativeQuoteQty_eq
  have hstatus := r.status_eq
  unfold parseBinanceOrder
  cases hcounted : countedStatus r.status with
  | false => simp [hstatus, hcounted]
  | true =>
    by_cases hpos : 0 < r.executedQty
    · simp [hstatus, hcounted, hs, hq, hexec, hcumm, hpos, hpos.not_ge]
    · simp [hstatus, hs, hexec, hpos, not_lt.1 hpos]

/-- What is counted of an order of known instrument. -/
theorem volume_eq (r : RestOrder) (parsed : ParsedBinanceOrder)
    (h : parseBinanceOrder r.venueResponse = some parsed) : quoteVolume parsed = r.cummulativeQuoteQty := by
  rw [r.parse] at h
  split at h
  · rename_i hcond
    obtain rfl := Option.some.inj h
    unfold quoteVolume
    split
    · rename_i hfills
      exact (r.fills_add_up hfills).2
    · simp only [hcond.2, gt_iff_lt, true_and]
      split
      · rfl
      · rename_i hprice
        -- nothing was paid for what was executed
        have hle : r.cummulativeQuoteQty ≤ 0 := by
          by_contra hpos
          exact hprice (div_pos (not_le.1 hpos) hcond.2)
        exact le_antisymm r.cummulativeQuoteQty_nonneg hle
  · cases h

end RestOrder

/-- What is counted of an order in the volume of a symbol. -/
def countedVolume (k : SymbolKey) (r : RestOrder) : ℚ :=
  if r.symbolKey = k ∧ countedStatus r.status then r.cummulativeQuoteQty else 0

theorem yearlyVolume_rebuildOrder (db : RollupDb) (k : SymbolKey) (s : Rebuild) {r : RestOrder}
    (hinst : (db.instrument r.exchange r.segment r.symbol).isSome) :
    yearlyVolume k (rebuildOrder db s r.toOrderRow).acc = yearlyVolume k s.acc + countedVolume k r := by
  obtain ⟨inst, hinst⟩ := Option.isSome_iff_exists.1 hinst
  have hparse := r.parse
  unfold rebuildOrder countedVolume
  by_cases hcounted : countedStatus r.status ∧ 0 < r.executedQty
  · rw [if_pos hcounted] at hparse
    simp only [hparse, hinst]
    rw [yearlyVolume_order, (bookOrder_spec db r.toOrderRow inst _ _ _).2, r.volume_eq _ hparse]
    simp [hcounted.1]
  · -- the order is skipped: either its status does not count, or nothing was executed
    have hzero : countedStatus r.status → r.cummulativeQuoteQty = 0 := fun hc =>
      r.unexecuted (le_antisymm (not_lt.1 fun hpos => hcounted ⟨hc, hpos⟩) r.executedQty_nonneg)
    rw [if_neg hcounted] at hparse
    simp only [hparse]
    split
    · rename_i h
      rw [hzero h.2, add_zero]
    · rw [add_zero]

theorem yearlyVolume_rebuild (db : RollupDb) (k : SymbolKey) (orders : List RestOrder) (s : Rebuild)
    (hinst : ∀ r ∈ orders, (db.instrument r.exchange r.segment r.symbol).isSome) :
    yearlyVolume k ((orders.map (·.toOrderRow)).foldl (rebuildOrder db) s).acc =
      yearlyVolume k s.acc + (orders.map (countedVolume k)).sum := by
  induction orders generalizing s with
  | nil => simp
  | cons r orders ih =>
    obtain ⟨hr, horders⟩ := List.forall_mem_cons.1 hinst
    rw [List.map_cons, List.foldl_cons, ih _ horders, yearlyVolume_rebuildOrder db k s hr, List.map_cons,
      List.sum_cons, add_assoc]

/-- Two sums, one of them below the other term by term, are equal only if all the terms are. -/
theorem sum_map_eq_iff {α : Type*} {f g : α → ℚ} {l : List α} (h : ∀ x ∈ l, f x ≤ g x) :
    (l.map f).sum = (l.map g).sum ↔ ∀ x ∈ l, f x = g x := by
  induction l with
  | nil => simp
  | cons x l ih =>
    obtain ⟨hx, hl⟩ := List.forall_mem_cons.1 h
    have hsum : (l.map f).sum ≤ (l.map g).sum := List.sum_le_sum hl
    rw [List.map_cons, List.map_cons, List.sum_cons, List.sum_cons, List.forall_mem_cons, ← ih hl]
    constructor
    · intro heq
      constructor <;> linarith
    · rintro ⟨hxeq, hleq⟩
      rw [hxeq, hleq]

/-- **What is accounted for**: the yearly rows of a symbol add up to the quote volume its orders executed
exactly when no order of it that executed any ended canceled, expired or otherwise than filled. -/
theorem volume_accounted_iff (db : RollupDb) (orders : List RestOrder)
    (hinst : ∀ r ∈ orders, (db.instrument r.exchange r.segment r.symbol).isSome) (k : SymbolKey) :
    yearlyVolume k (rebuild db (orders.map (·.toOrderRow))).1 =
        (orders.map fun r => if r.symbolKey = k then r.cummulativeQuoteQty else 0).sum ↔
      ∀ r ∈ orders, r.symbolKey = k → countedStatus r.status ∨ r.cummulativeQuoteQty = 0 := by
  have hstart : yearlyVolume k Rebuild.start.acc = 0 := rfl
  have hle : ∀ r ∈ orders, countedVolume k r ≤ if r.symbolKey = k then r.cummulativeQuoteQty else 0 := by
    intro r _
    have hnonneg := r.cummulativeQuoteQty_nonneg
    unfold countedVolume
    by_cases hk : r.symbolKey = k <;> by_cases hc : countedStatus r.status <;> simp [hk, hc, hnonneg]
  rw [rebuild, yearlyVolume_rebuild db k orders _ hinst, hstart, zero_add, sum_map_eq_iff hle]
  apply forall₂_congr
  intro r _
  unfold countedVolume
  by_cases hk : r.symbolKey = k <;> by_cases hc : countedStatus r.status <;> simp [hk, hc, eq_comm]

/-! ## An order canceled half way -/

def btcusdt : RollupDb where
  instrument _ _ symbol := if symbol = "BTCUSDT" then some ⟨"BTC", "USDT"⟩ else none
  assetPrice _ _ _ _ _ := none
  toUppercase := toAsciiUppercase

/-- Two were asked for, one was bought for 100. -/
def oneForHundred (status : String) : RestOrder where
  orgId := 1
  exchange := "binance"
  segment := "spot"
  symbol := "BTCUSDT"
  updatedAt := 1709208000
  venueResponse := .obj [("status", .str status), ("side", .str "BUY"), ("origQty", .str "2"),
    ("executedQty", .str "1"), ("cummulativeQuoteQty", .str "100")]
  status := status
  executedQty := 1
  cummulativeQuoteQty := 100
  status_eq := rfl
  executedQty_eq := ⟨"1", rfl, by decide +kernel⟩
  cummulativeQuoteQty_eq := ⟨"100", rfl, by decide +kernel⟩
  executedQty_nonneg := by decide
  cummulativeQuoteQty_nonneg := by decide
  unexecuted h := absurd h (by decide)
  fills_add_up h := absurd rfl h

theorem canceled_is_dropped :
    yearlyVolume (oneForHundred "CANCELED").symbolKey
        (rebuild btcusdt ([oneForHundred "CANCELED"].map (·.toOrderRow))).1 = 0 ∧
      ([oneForHundred "CANCELED"].map (·.cummulativeQuoteQty)).sum = 100 := by
  decide +kernel

/-- Filled and partially filled orders are accounted for. -/
theorem filled_are_accounted :
    let orders := [oneForHundred "FILLED", oneForHundred "PARTIALLY_FILLED"]
    yearlyVolume (oneForHundred "FILLED").symbolKey (rebuild btcusdt (orders.map (·.toOrderRow))).1 =
      (orders.map fun r => if r.symbolKey = (oneForHundred "FILLED").symbolKey then r.cummulativeQuoteQty
        else 0).sum :=
  (volume_accounted_iff btcusdt _ (by decide +kernel) _).2 (by decide +kernel)

end Qtss.Storage.Pnl
