import Qtss.Ai.Decisions
import Qtss.Storage.ExchangeOrders
import Qtss.Worker.EntryGates
/-
# The AI tactical executor (`qtss-worker/src/ai_tactical_executor.rs`)

| here | there |
| --- | --- |
| `netPositionForSymbol` | `net_position_for_symbol` (ai_tactical_executor.rs:87) |
| `netPositionFromBinancePositionRisk` | :123 |
| `ExecutorConfig.liveOn` | `live_on` (:498): live without dry |
| `AiTacticalDecisionRow`, `fetchLatestApprovedTactical` | qtss-ai/src/storage.rs:349; `positionSizeMultiplier` is what `Decimal::from_f64` makes of the column |
| `markChild`        | the UPDATEs of the child in `mark_applied` and `mark_tactical_execution_failed`; the parent is not read here |
| `entryFor`         | the loop's body up to `build_entry_intent` (:539-643) |
| `executeDry`, `executeLiveBinance` | `execute_dry` (:275), `execute_live_binance` (:331) |
| `Answers`          | what the database and the venue say to one engine row |

`str::to_uppercase` is a parameter. The fills, the market data and the accounts are read afresh for each row and written
by others, so they are answers; the tactical rows are a table here. The `exchange_orders` row of an order is best effort
and not read by the rest of the pass.
-/

namespace Qtss.Worker.AiTactical
open Storage V1 Ai
open Execution.Dry (trim DryLedgerState VirtualLedgerParams instrumentPositionKey)

/-! ## Directions -/

def isLongEntry (direction : String) : Bool := direction = "buy" || direction = "strong_buy"

def isShortEntry (direction : String) : Bool := direction = "sell" || direction = "strong_sell"

def isActionable (direction : String) : Bool := isLongEntry direction || isShortEntry direction

/-! ## Positions -/

/-- `as_f64`, and `Decimal::from_f64` of it. -/
def decimalFromNumber : Json → Option ℚ
  | .int n => some n
  | .float q => some q
  | _ => none

/-- The quantity of an order's intent, a text or a number. -/
def intentQuantity (intent : Json) : ℚ :=
  (((intent.get "quantity").bind fun v => v.asStr.bind decimalFromStr).or
    ((intent.get "quantity").bind decimalFromNumber)).getD 0

/-- The quantity with its sign. -/
def requested (row : ExchangeOrderRow) : ℚ :=
  match (row.intent.get "side").bind Json.asStr with
  | some "buy" | some "Buy" => intentQuantity row.intent
  | some "sell" | some "Sell" => -intentQuantity row.intent
  | _ => 0

/-- ai_tactical_executor.rs:87: the long and the short quantity. -/
def netPositionForSymbol (toUppercase : String → String) (filled : List ExchangeOrderRow) (symbol : String) : ℚ × ℚ :=
  let sym := toUppercase (trim symbol)
  let net := filled.foldl (fun net row => if !eqIgnoreAsciiCase row.symbol sym then net else net + requested row) 0
  if net > 0 then (net, 0) else if net < 0 then (0, |net|) else (0, 0)

/-- A row of `positionRisk` added to the long and the short quantity. -/
def addPositionRisk (toUppercase : String → String) (want : String) (qty : ℚ × ℚ) (it : Json) : ℚ × ℚ :=
  let rowSym := toUppercase (trim (((it.get "symbol").bind Json.asStr).getD ""))
  if rowSym ≠ want then qty
  else
    let amt := (((it.get "positionAmt").bind Json.asStr).bind decimalFromStr).getD 0
    match ((it.get "positionSide").bind Json.asStr).getD "BOTH" with
    | "LONG" => (qty.1 + |amt|, qty.2)
    | "SHORT" => (qty.1, qty.2 + |amt|)
    | _ => if amt > 0 then (qty.1 + amt, qty.2) else if amt < 0 then (qty.1, qty.2 + |amt|) else qty

def netPositionFromBinancePositionRisk (toUppercase : String → String) (resp : Json) (sym : String) : ℚ × ℚ :=
  match resp.asArray with
  | none => (0, 0)
  | some arr => arr.foldl (addPositionRisk toUppercase (toUppercase (trim sym))) (0, 0)

/-! ## Configuration -/

structure ExecutorConfig where
  dryEnabled : Bool
  liveEnabled : Bool
  baseNotional : ℚ
  leverage : ℕ
  makerBps : UInt32
  takerBps : UInt32
  quoteBalance : ℚ

def ExecutorConfig.liveOn (c : ExecutorConfig) : Bool := c.liveEnabled && !c.dryEnabled

/-! ## Tactical decisions -/

structure AiTacticalDecisionRow where
  id : Uuid
  createdAt : DateTime
  validUntil : DateTime
  symbol : String
  direction : String
  positionSizeMultiplier : Option ℚ
  status : ChildStatus

abbrev TacticalTable := List AiTacticalDecisionRow

/-- qtss-ai/src/storage.rs:349. -/
def fetchLatestApprovedTactical (t : TacticalTable) (sym : String) (now : DateTime) : Option AiTacticalDecisionRow :=
  ((t.filter fun td => td.symbol = sym && td.status = .approved && td.validUntil > now).insertionSort
    fun a b => b.createdAt ≤ a.createdAt).head?

/-- `UPDATE ai_tactical_decisions SET status = … WHERE id = $1`. -/
def setStatus (t : TacticalTable) (id : Uuid) (status : ChildStatus) : TacticalTable :=
  t.map fun td => if td.id = id then { td with status := status } else td

/-! ## One engine row -/

structure EngineSymbolRow where
  exchange : String
  segment : String
  symbol : String

def parseSegment (s : String) : MarketSegment := if eqIgnoreAsciiCase s "futures" then .futures else .spot

/-- `ExchangeId::from_str(…).unwrap_or(ExchangeId::Binance)`. -/
def exchangeIdOr (s : String) : ExchangeId :=
  match s with
  | "bybit" => .bybit
  | "okx" => .okx
  | "custom" => .custom
  | _ => .binance

/-- `none` and `false` are failures. -/
structure Answers where
  isBackfillReady : Bool
  now : DateTime
  fetchOk : Bool
  filledSym : Option (List ExchangeOrderRow)
  accountPair : Option (Uuid × Uuid)
  positionRisk : Option Json
  markPrice : Option ℚ
  isTradingHalted : Bool
  /-- Credentials are there, and a client comes of them. -/
  client : Bool
  changeLeverageOk : Bool
  placeOk : Bool
  /-- The id of `Uuid::new_v4`. -/
  cid : Uuid
  /-- The SELECT of the decision and the UPDATE of the child, in a mark. -/
  selectOk : Bool
  updateOk : Bool

/-- The position the gate sees. -/
def positionSeen (toUppercase : String → String) (cfg : ExecutorConfig) (segment : MarketSegment) (sym : String)
    (filledSym : List ExchangeOrderRow) (a : Answers) : ℚ × ℚ :=
  if cfg.liveOn && segment = .futures then
    match a.accountPair, a.positionRisk with
    | some _, some resp => netPositionFromBinancePositionRisk toUppercase resp sym
    | _, _ => netPositionForSymbol toUppercase filledSym sym
  else netPositionForSymbol toUppercase filledSym sym

/-- `already long`, `already short`. -/
def alreadyIn (direction : String) (position : ℚ × ℚ) : Bool :=
  (isLongEntry direction && position.1 > 1 / 10 ^ 8) || (isShortEntry direction && position.2 > 1 / 10 ^ 8)

def buildEntryIntent (exchange : ExchangeId) (segment : MarketSegment) (symbol : String) (side : OrderSide) (qty : ℚ) :
    OrderIntent := ⟨⟨exchange, segment, symbol⟩, side, qty, .market, false⟩

/-- An entry that no gate has stopped. -/
structure Entry where
  td : AiTacticalDecisionRow
  segment : MarketSegment
  mark : ℚ
  intent : OrderIntent

def entryFor (toUppercase : String → String) (cfg : ExecutorConfig) (t : TacticalTable) (es : EngineSymbolRow)
    (a : Answers) : Option Entry := do
  guard a.isBackfillReady
  let sym := toUppercase (trim es.symbol)
  let segment := parseSegment es.segment
  guard a.fetchOk
  let td ← fetchLatestApprovedTactical t sym a.now
  guard (isActionable td.direction)
  guard (!(isShortEntry td.direction && segment ≠ .futures))
  let filledSym ← a.filledSym
  guard (!alreadyIn td.direction (positionSeen toUppercase cfg segment sym filledSym a))
  let notional := cfg.baseNotional * td.positionSizeMultiplier.getD 1 * cfg.leverage
  let mark ← a.markPrice
  guard (0 < mark)
  let qty := roundDp 6 (notional / mark)
  guard (0 < qty)
  let side := if isLongEntry td.direction then .buy else .sell
  some ⟨td, segment, mark, buildEntryIntent (exchangeIdOr (trim es.exchange)) segment sym side qty⟩

/-! ## Execution -/

/-- The loop between two engine rows. -/
structure Executor where
  tactical : TacticalTable
  ledger : DryLedgerState
  /-- The rows of the tick that are left. -/
  engineSymbols : List EngineSymbolRow
  /-- The tactical decisions that led to an order or a fill, the last one last. -/
  acknowledged : List Uuid

def Executor.start (cfg : ExecutorConfig) (tactical : TacticalTable) : Executor :=
  ⟨tactical, .fromParams ⟨cfg.quoteBalance⟩, [], []⟩

/-- A mark of the child: `status` is `applied` or `execution_failed`. -/
def markChild (s : Executor) (a : Answers) (id : Uuid) (status : ChildStatus) : Executor :=
  if a.selectOk && a.updateOk then { s with tactical := setStatus s.tactical id status } else s

/-- `set_reference_price` and `place_detailed`: whether the order is filled, and the ledger. -/
def placeDry (cfg : ExecutorConfig) (ledger : DryLedgerState) (e : Entry) (cid : Uuid) : Bool × DryLedgerState :=
  let marked := { ledger with marks := ledger.marks.insert (instrumentPositionKey e.intent.instrument) e.mark }
  let (out, ledger) := Execution.Dry.applyPlace marked (.manualBps cfg.makerBps cfg.takerBps) none e.intent none cid
  (out.isOk, ledger)

def executeDry (cfg : ExecutorConfig) (s : Executor) (a : Answers) (e : Entry) : Executor :=
  let (filled, ledger) := placeDry cfg s.ledger e a.cid
  let s := { s with ledger := ledger }
  if filled then markChild { s with acknowledged := s.acknowledged ++ [e.td.id] } a e.td.id .applied else s

def executeLiveBinance (cfg : ExecutorConfig) (s : Executor) (a : Answers) (e : Entry) : Executor :=
  if a.isTradingHalted then s
  else if !a.client then s
  else if e.segment = .futures && cfg.leverage > 1 && !a.changeLeverageOk then markChild s a e.td.id .executionFailed
  else if a.placeOk then markChild { s with acknowledged := s.acknowledged ++ [e.td.id] } a e.td.id .applied
  else markChild s a e.td.id .executionFailed

def execute (cfg : ExecutorConfig) (s : Executor) (a : Answers) (e : Entry) : Executor :=
  if cfg.dryEnabled then executeDry cfg s a e
  else if cfg.liveOn then
    match a.accountPair with
    | none => s
    | some _ => executeLiveBinance cfg s a e
  else s

inductive Op where
  /-- The loop wakes and lists the engine rows; `none` is a failed query. -/
  | tick (isTradingHalted : Bool) (engineSymbols : Option (List EngineSymbolRow))
  /-- The next engine row of the tick. -/
  | row (a : Answers)
  /-- `insert_tactical_decision`. -/
  | insertTactical (td : AiTacticalDecisionRow)
  /-- An approval, a rejection or an expiry of a decision, which finds its children pending. -/
  | verdict (ids : List Uuid) (v : Verdict)

def step (toUppercase : String → String) (cfg : ExecutorConfig) (s : Executor) : Op → Executor
  | .tick halted engineSymbols =>
    match s.engineSymbols with
    | [] => if halted then s else { s with engineSymbols := engineSymbols.getD [] }
    | _ :: _ => s
  | .row a =>
    match s.engineSymbols with
    | [] => s
    | es :: rest =>
      let s := { s with engineSymbols := rest }
      match entryFor toUppercase cfg s.tactical es a with
      | none => s
      | some e => execute cfg s a e
  | .insertTactical td =>
    if s.tactical.any (·.id = td.id) then s
    else { s with tactical := s.tactical ++ [{ td with status := .pendingApproval }] }
  | .verdict ids v =>
    { s with tactical := s.tactical.map fun td =>
        if td.id ∈ ids && td.status = .pendingApproval then { td with status := v.toChild } else td }

end Qtss.Worker.AiTactical
