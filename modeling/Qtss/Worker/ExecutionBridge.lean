import Qtss.Domain.Commission
import Qtss.Storage.SetupLifecycle
import Qtss.Worker.EntryGates
import Qtss.Worker.TickDispatcherLoop
/-
# The execution bridge (`qtss-worker/src/execution_bridge.rs`)

A tick claims pending candidates and dispatches them one after the other.

| here | there |
| --- | --- |
| `buildOrderIntent`, `buildLiveState` | execution_bridge.rs:273, :311 |
| `placeWithVenueResponse` | binance_live.rs:32; the order is a market order and needs no approval |
| `DispatchInput`          | what one dispatch reads, and how each of its calls ends |
| `dispatchDry`, `dispatchLive`, `dispatch` | :158, :209, :141 |
| `processRow`             | the body of the loop over the claimed rows (:83-104) |
| `runTick`                | `run_tick` (:71) |
| `BridgeWorker`, `BridgeOp`, `bridgeStep` | the tables and the tick under way; what happens to them, one row at a time |

The selector, the workers that close positions, and a restart of this one come between two rows as they like.
`runTick_eq_run`: a tick is a run of such steps. `DispatchReport` is a record kept for the proofs.

"If either gate fails the candidate isn't fulfilled this tick. The selected_candidates row stays claimed; a
subsequent run_tick will re-evaluate." It does not stay claimed: the dry dispatch of a stopped candidate is
`Ok`, so the row becomes `placed`, and the live one is an error, so the row becomes `errored` and the setup
`rejected`. Nor would a claimed row be looked at again.
-/

namespace Qtss.Worker
open Storage Keyed

/-! ## Orders -/

def domainSegment : String → Except String MarketSegment
  | "spot" => .ok .spot
  | "futures" => .ok .futures
  | "margin" => .ok .margin
  | "options" => .ok .options
  | other => .error ("unsupported segment for live: " ++ other)

def orderSide : String → Except String OrderSide
  | "BUY" | "buy" => .ok .buy
  | "SELL" | "sell" => .ok .sell
  | other => .error ("unknown side: " ++ other)

/-- execution_bridge.rs:273. -/
def buildOrderIntent (live : InsertLivePosition) : Except String V1.OrderIntent := do
  let segment ← domainSegment live.segment
  let side ← orderSide live.side
  return {
    instrument := ⟨.binance, segment, live.symbol⟩, side := side, quantity := live.qtyFilled,
    orderType := .market, requiresHumanApproval := false }

/-- What Binance answers to an order. -/
structure VenueResponse where
  clientOrderId : Uuid
  orderId : Option ℤ
deriving DecidableEq

/-- binance_live.rs:32. -/
def placeWithVenueResponse (intent : V1.OrderIntent) (venue : Except String VenueResponse) :
    Except String VenueResponse :=
  if intent.requiresHumanApproval then .error "onay bekleniyor"
  else if intent.instrument.exchange ≠ .binance then
    .error "borsa reddi: yalnızca Binance enstrümanları destekleniyor"
  else
    match intent.instrument.segment with
    | .spot | .futures => venue.mapError ("borsa reddi: " ++ ·)
    | .margin | .options => .error "borsa reddi: bu piyasa segmenti için canlı emir kapalı"

/-- A row of `exchange_orders`. -/
structure ExchangeOrder where
  orgId : Uuid
  userId : Uuid
  exchange : String
  segment : String
  symbol : String
  clientOrderId : Uuid
  venueOrderId : Option ℤ
deriving DecidableEq

/-- execution_bridge.rs:311. -/
def buildLiveState (id : Uuid) (p : InsertLivePosition) (now : DateTime) :
    Option Risk.LivePositionState := do
  let segment ← parseSegment p.segment
  let side ← match p.side with
    | "BUY" | "buy" => some Risk.PositionSide.buy
    | "SELL" | "sell" => some .sell
    | _ => none
  return {
    id := id, setupId := p.setupId, mode := p.mode, exchange := p.exchange, segment := segment,
    symbol := p.symbol, side := side,
    leverage := if 0 ≤ p.leverage ∧ p.leverage < 256 then p.leverage.toNat else 1,
    entryAvg := p.entryAvg, qtyFilled := p.qtyFilled, qtyRemaining := p.qtyRemaining,
    currentSl := p.currentSl, tpLadder := p.tpLadder.legs.getD [],
    liquidationPrice := p.liquidationPrice, maintMarginRatio := p.maintMarginRatio,
    fundingRateNext := none, lastMark := p.lastMark, lastTickAt := none, openedAt := now }

/-! ## State -/

/-- What became of one claimed row. `skipped` is the gate that stopped it, `acked` says that the broker
accepted an order, `position` is the id of the row inserted for it, and `stamped` says that its setup was
closed as rejected. -/
structure DispatchReport where
  candidateId : ℕ
  setupId : Uuid
  mode : String
  skipped : Option EntryGate
  acked : Bool
  position : Option Uuid
  stamped : Bool
deriving DecidableEq

structure Bridge where
  candidates : CandidateTable
  positions : PositionTable
  orders : List ExchangeOrder
  setups : List SetupRow
  store : Risk.LivePositionStore
  reports : List DispatchReport

structure DispatchInput where
  entry : EntryInput
  /-- `binance_for_user`: a row or none, or a failed read. -/
  credentials : Except String Bool
  /-- `BinanceClient::new`. -/
  client : Except String Unit
  /-- `spot_new_order` or `fapi_new_order`. -/
  venue : Except String VenueResponse
  /-- `insert_submitted`. -/
  insertOrder : Except String Unit
  /-- `insert_live_position`: the id that `RETURNING` gives. -/
  insertPosition : Except String Uuid
  markPlacedOk : Bool
  markErroredOk : Bool
  rejectOk : Bool
  now : DateTime

/-! ## Dispatch -/

/-- How a dispatch ends. -/
structure Dispatched where
  bridge : Bridge
  result : Except String Unit
  acked : Bool
  position : Option Uuid

/-- "Persist live_positions + upsert store"; a failed insert is only logged. -/
def persistPosition (i : DispatchInput) (live : InsertLivePosition) (b : Bridge) : Bridge × Option Uuid :=
  match i.insertPosition with
  | .ok id =>
    ({ b with
      positions := b.positions.insertLive live id i.now
      store := match buildLiveState id live i.now with
        | some state => b.store.upsert state
        | none => b.store }, some id)
  | .error _ => (b, none)

/-- execution_bridge.rs:158. -/
def dispatchDry (i : DispatchInput) (row : SelectedCandidateRow) (b : Bridge) : Dispatched :=
  match buildLivePositionForMode i.entry b.positions row .dry with
  | some live =>
    let (b, position) := persistPosition i live b
    ⟨b, .ok (), false, position⟩
  | none => ⟨b, .ok (), false, none⟩

/-- execution_bridge.rs:214-239: up to the order at the broker. -/
def placeLive (i : DispatchInput) (row : SelectedCandidateRow) (positions : PositionTable) :
    Except String (InsertLivePosition × VenueResponse) := do
  let live ← (buildLivePositionForMode i.entry positions row .live).elim
    (.error "live dispatch: system org/user unresolved") .ok
  let found ← i.credentials
  if !found then
    .error ("no exchange_accounts row for user=" ++ toString live.userId ++ " exchange=binance segment="
      ++ live.segment)
  else
    i.client
    let intent ← buildOrderIntent live
    let venue ← placeWithVenueResponse intent i.venue
    return (live, venue)

/-- execution_bridge.rs:209. -/
def dispatchLive (i : DispatchInput) (row : SelectedCandidateRow) (b : Bridge) : Dispatched :=
  match placeLive i row b.positions with
  | .error e => ⟨b, .error e, false, none⟩
  | .ok (live, venue) =>
    match i.insertOrder with
    | .error e => ⟨b, .error e, true, none⟩
    | .ok () =>
      let order : ExchangeOrder := ⟨live.orgId, live.userId, live.exchange, live.segment, live.symbol,
        venue.clientOrderId, venue.orderId⟩
      let (b, position) := persistPosition i live { b with orders := b.orders ++ [order] }
      ⟨b, .ok (), true, position⟩

/-- execution_bridge.rs:141. -/
def dispatch (i : DispatchInput) (row : SelectedCandidateRow) (dryEnabled liveEnabled : Bool) (b : Bridge) :
    Dispatched :=
  match row.mode with
  | "dry" =>
    if dryEnabled then dispatchDry i row b else ⟨b, .error "dry execution disabled via config", false, none⟩
  | "live" =>
    if liveEnabled then dispatchLive i row b else ⟨b, .error "live execution disabled via config", false, none⟩
  | "backtest" => ⟨b, .ok (), false, none⟩
  | other => ⟨b, .error ("unknown mode: " ++ other), false, none⟩

/-! ## A tick -/

/-- The gate that stopped the candidate, if the bridge got as far as asking. -/
def skippedBy (i : DispatchInput) (row : SelectedCandidateRow) (dryEnabled liveEnabled : Bool) (b : Bridge) :
    Option EntryGate :=
  match row.mode with
  | "dry" => if dryEnabled ∧ Resolved i.entry.cfg .dry then gateStops i.entry b.positions row .dry else none
  | "live" => if liveEnabled ∧ Resolved i.entry.cfg .live then gateStops i.entry b.positions row .live else none
  | _ => none

/-- execution_bridge.rs:114. -/
def markSetupRejected (setupId : Uuid) (reason : String) (now : DateTime) (setups : List SetupRow) :
    List SetupRow :=
  setups.map fun s => if s.id = setupId then s.markRejected reason now else s

/-- The body of the loop over the claimed rows (:83-104), and whether the loop goes on: the `?` of the two
status writes ends the tick. -/
def processRow (i : DispatchInput) (row : SelectedCandidateRow) (dryEnabled liveEnabled : Bool)
    (b : Bridge) : Bridge × Bool :=
  let skipped := skippedBy i row dryEnabled liveEnabled b
  let d := dispatch i row dryEnabled liveEnabled b
  let report (stamped : Bool) : DispatchReport :=
    ⟨row.id, row.setupId, row.mode, skipped, d.acked, d.position, stamped⟩
  match d.result with
  | .ok () =>
    ({ d.bridge with
      candidates := if i.markPlacedOk then d.bridge.candidates.markPlaced row.id i.now else d.bridge.candidates
      reports := d.bridge.reports ++ [report false] }, i.markPlacedOk)
  | .error msg =>
    if i.markErroredOk then
      let stamps := row.mode == "live" && i.rejectOk
      let stamped := stamps && d.bridge.setups.any fun s => s.id == row.setupId && s.closedAt.isNone
      ({ d.bridge with
        candidates := d.bridge.candidates.markErrored row.id msg
        setups := if stamps then markSetupRejected row.setupId msg i.now d.bridge.setups
          else d.bridge.setups
        reports := d.bridge.reports ++ [report stamped] }, true)
    else ({ d.bridge with reports := d.bridge.reports ++ [report false] }, false)

/-- What a tick reads before its loop. -/
structure ClaimInput where
  dryEnabled : Bool
  liveEnabled : Bool
  claimOk : Bool
  /-- Rows that another worker has locked: `SKIP LOCKED`. -/
  locked : ℕ → Bool
  now : DateTime

def batch : ℕ := 10

/-- `claim_selected_candidates(pool, BATCH).await?`. -/
def claimRows (c : ClaimInput) (b : Bridge) : Bridge × List SelectedCandidateRow :=
  if c.claimOk then
    let (t, rows) := b.candidates.claimPending c.locked batch c.now
    ({ b with candidates := t }, rows)
  else (b, [])

/-- The loop over the claimed rows; `env` is what the dispatch of a candidate meets. -/
def dispatchRows (env : ℕ → DispatchInput) (dryEnabled liveEnabled : Bool) :
    List SelectedCandidateRow → Bridge → Bridge
  | [], b => b
  | row :: rows, b =>
    match processRow (env row.id) row dryEnabled liveEnabled b with
    | (b, true) => dispatchRows env dryEnabled liveEnabled rows b
    | (b, false) => b

/-- execution_bridge.rs:71. -/
def runTick (c : ClaimInput) (env : ℕ → DispatchInput) (b : Bridge) : Bridge :=
  let (b, rows) := claimRows c b
  dispatchRows env c.dryEnabled c.liveEnabled rows b

/-! ## One row at a time -/

/-- A tick under way: the two switches it has read and the rows that are still to be dispatched. -/
structure TickUnderWay where
  dryEnabled : Bool
  liveEnabled : Bool
  rows : List SelectedCandidateRow
deriving DecidableEq

structure BridgeWorker where
  bridge : Bridge
  tick : TickUnderWay

/-- Nothing queued yet, whatever else there is. -/
def BridgeWorker.start (positions : PositionTable) (setups : List SetupRow) : BridgeWorker :=
  ⟨⟨∅, positions, [], setups, .new, []⟩, ⟨false, false, []⟩⟩

inductive BridgeOp where
  /-- The selector hands on a candidate under the next `id`. -/
  | enqueue (id : ℕ) (c : InsertSelectedCandidate) (now : DateTime)
  /-- A tick starts; whatever was under way is lost. -/
  | claim (c : ClaimInput)
  /-- The tick under way dispatches its next row. -/
  | dispatch (i : DispatchInput)
  | closePosition (id : Uuid) (reason : String) (now : DateTime)

def dispatchNext (i : DispatchInput) (w : BridgeWorker) : BridgeWorker :=
  match w.tick.rows with
  | [] => w
  | row :: rows =>
    let (b, goOn) := processRow i row w.tick.dryEnabled w.tick.liveEnabled w.bridge
    ⟨b, { w.tick with rows := if goOn then rows else [] }⟩

def bridgeStep (w : BridgeWorker) : BridgeOp → BridgeWorker
  | .enqueue id c now => { w with bridge.candidates := w.bridge.candidates.insert id c now }
  | .claim c =>
    let (b, rows) := claimRows c w.bridge
    ⟨b, ⟨c.dryEnabled, c.liveEnabled, rows⟩⟩
  | .dispatch i => dispatchNext i w
  | .closePosition id reason now =>
    { w with bridge.positions := w.bridge.positions.closeLive id reason now }

/-! ## A tick is a run -/

theorem dispatch_done {w : BridgeWorker} {i : DispatchInput} (h : w.tick.rows = []) :
    bridgeStep w (.dispatch i) = w := by
  simp [bridgeStep, dispatchNext, h]

theorem dispatchNext_cons {w : BridgeWorker} {i : DispatchInput} {row : SelectedCandidateRow}
    {rows : List SelectedCandidateRow} (h : w.tick.rows = row :: rows) :
    dispatchNext i w = ⟨(processRow i row w.tick.dryEnabled w.tick.liveEnabled w.bridge).1,
      { w.tick with rows := if (processRow i row w.tick.dryEnabled w.tick.liveEnabled w.bridge).2
        then rows else [] }⟩ := by
  simp [dispatchNext, h]

theorem claim_failed {w : BridgeWorker} {c : ClaimInput} (h : c.claimOk = false) :
    bridgeStep w (.claim c) = ⟨w.bridge, ⟨c.dryEnabled, c.liveEnabled, []⟩⟩ := by
  simp [bridgeStep, claimRows, h]

theorem claim_succeeded {w : BridgeWorker} {c : ClaimInput} (h : c.claimOk = true) :
    bridgeStep w (.claim c) =
      ⟨{ w.bridge with candidates := (w.bridge.candidates.claimPending c.locked batch c.now).1 },
        ⟨c.dryEnabled, c.liveEnabled, (w.bridge.candidates.claimPending c.locked batch c.now).2⟩⟩ := by
  simp [bridgeStep, claimRows, h]

theorem run_dispatch_done {w : BridgeWorker} (h : w.tick.rows = []) (is : List DispatchInput) :
    Runs.run bridgeStep w (is.map .dispatch) = w := by
  induction is with
  | nil => rfl
  | cons i is ih => rw [List.map_cons, Runs.run_cons, dispatch_done h, ih]

theorem run_dispatch_rows (env : ℕ → DispatchInput) (dryEnabled liveEnabled : Bool)
    (rows : List SelectedCandidateRow) (b : Bridge) :
    Runs.run bridgeStep ⟨b, ⟨dryEnabled, liveEnabled, rows⟩⟩ (rows.map fun row => .dispatch (env row.id)) =
      ⟨dispatchRows env dryEnabled liveEnabled rows b, ⟨dryEnabled, liveEnabled, []⟩⟩ := by
  induction rows generalizing b with
  | nil => rfl
  | cons row rows ih =>
    rw [List.map_cons, Runs.run_cons]
    simp only [bridgeStep, dispatchNext, dispatchRows]
    rcases processRow (env row.id) row dryEnabled liveEnabled b with ⟨b', _ | _⟩
    · have := run_dispatch_done (w := ⟨b', ⟨dryEnabled, liveEnabled, []⟩⟩) rfl
        (rows.map fun row => env row.id)
      simpa [List.map_map, Function.comp_def] using this
    · exact ih b'

/-- **A tick is a run of single rows**, with nothing coming between them. -/
theorem runTick_eq_run (c : ClaimInput) (env : ℕ → DispatchInput) (w : BridgeWorker) :
    Runs.run bridgeStep w
        (.claim c :: (claimRows c w.bridge).2.map fun row => .dispatch (env row.id)) =
      ⟨runTick c env w.bridge, ⟨c.dryEnabled, c.liveEnabled, []⟩⟩ :=
  run_dispatch_rows env c.dryEnabled c.liveEnabled (claimRows c w.bridge).2 (claimRows c w.bridge).1

/-! ## The store -/

/-- The row that `list_open_live_positions` reads back. -/
def rowOf (p : LivePosition) : LivePositionRow where
  id := p.id
  setupId := p.setupId
  mode := match p.mode with
    | .dry => "dry"
    | .live => "live"
  exchange := p.exchange
  segment := p.segment
  symbol := p.symbol
  side := p.side
  leverage := p.leverage
  entryAvg := p.entryAvg
  qtyFilled := p.qtyFilled
  qtyRemaining := p.qtyRemaining
  currentSl := p.currentSl
  tpLadder := p.tpLadder.legs
  liquidationPrice := p.liquidationPrice
  maintMarginRatio := p.maintMarginRatio
  fundingRateNext := none
  lastMark := p.lastMark
  lastTickAt := none
  openedAt := p.openedAt

/-- **The bridge and the re-hydration agree**: what is put into the store for a new position is what the
tick dispatcher reads back from its row. -/
theorem buildLiveState_eq_toState {i : EntryInput} {positions : PositionTable} {row : SelectedCandidateRow}
    {mode : Risk.ExecutionMode} {live : InsertLivePosition} {id : Uuid} {now : DateTime}
    (h : buildLivePositionForMode i positions row mode = some live) :
    buildLiveState id live now =
      toState (rowOf { live with id := id, openedAt := now, closedAt := none, closeReason := none }) := by
  obtain ⟨orgId, userId, rfl⟩ := build_eq_some h
  have hside := liveSide_cases row.direction
  unfold buildLiveState toState rowOf positionOf
  simp only
  cases parseSegment (entrySegment i.cfg row) with
  | none => cases mode <;> rfl
  | some segment => rcases hside with hside | hside <;> rw [hside] <;> cases mode <;> rfl

end Qtss.Worker
