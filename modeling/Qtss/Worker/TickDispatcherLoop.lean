import Qtss.Notify.Lifecycle
import Qtss.Risk.TickDispatcher
/-
# The tick dispatcher loop (`qtss-worker/src/tick_dispatcher_loop.rs`)

A sweep goes over the tick keys of the store, evaluates the positions of each key that has a fresh price,
writes what the guards report and closes what is to be closed.

| here | there |
| --- | --- |
| `Dispatcher`         | the store, what the loop has written, and `seen`: the evaluations so far |
| `SweepInput`         | the price store, the clock, the commission, and which `close_live_position` writes succeed |
| `slCloseReason`, `closeReasonFor` | tick_dispatcher_loop.rs:168, :142 |
| `computeRealizedPnl`, `closePosition` | :218, :195 |
| `persistOutcome`     | :265 |
| `sweep`              | `run_sweep` (:92) |
| `toState`, `hydrate` | :386, :367 |

"evaluate_tick already mutated the store (tp_triggers subtracted), so read the fresh state and check": it did
not, and nothing else records the fill. A leg that stays crossed is reported by every sweep, and a ladder that
is crossed to its end leaves `qty_remaining` as it was (`ladder_reported_again`). `sweeps_iff` says on which
runs this does not show.
-/

namespace Qtss.Worker
open Risk Notify Runs

inductive CloseReason where
  | liquidationPanic | slHit | tpComplete
deriving DecidableEq, Repr

def CloseReason.asDbStr : CloseReason → String
  | .liquidationPanic => "liquidation_panic"
  | .slHit => "sl_hit"
  | .tpComplete => "tp_complete"

inductive ScaleEventKind where
  | scaleIn | scaleOut | addOnDip | partialTp | ratchetSl
deriving DecidableEq, Repr

/-- A row for `position_scale_events`; `legIndex` is the metadata of a partial take-profit. -/
structure ScaleEvent where
  positionId : PositionId
  eventKind : ScaleEventKind
  price : ℚ
  qtyDelta : ℚ
  reason : String
  legIndex : Option ℕ
deriving DecidableEq

/-- A row for `liquidation_guard_events`. -/
structure LiquidationEvent where
  positionId : PositionId
  severity : String
  actionTaken : String
  markPrice : ℚ
  liquidationPrice : ℚ
  distancePct : ℚ
deriving DecidableEq

structure ClosedPosition where
  positionId : PositionId
  reason : CloseReason
  realizedPnl : Option ℚ
deriving DecidableEq

/-- A snapshot that was evaluated, and whether its position was closed as `tp_complete` by then. -/
structure Evaluation where
  snapshot : LivePositionState
  complete : Bool
deriving DecidableEq

structure Dispatcher where
  store : LivePositionStore
  scaleEvents : List ScaleEvent
  liquidationEvents : List LiquidationEvent
  closed : List ClosedPosition
  seen : List Evaluation

def Dispatcher.start (store : LivePositionStore) : Dispatcher := ⟨store, [], [], [], []⟩

structure SweepInput where
  prices : String → String → Option PriceTick
  now : DateTime
  staleSecs : ℤ
  takerBps : Risk.MarketSegment → ℚ
  closeOk : PositionId → Bool

/-! ## Closing -/

/-- tick_dispatcher_loop.rs:168. -/
def slCloseReason (store : LivePositionStore) (id : PositionId) (mark : ℚ) : Option CloseReason := do
  let state ← store.get id
  let sl ← state.currentSl
  let breached := match state.side with
    | .buy => Decidable.decide (mark ≤ sl)
    | .sell => Decidable.decide (mark ≥ sl)
  if breached then some .slHit else none

/-- "Priority: liquidation panic > SL breach > all TPs filled." -/
def closeReasonFor (pos : PositionTickOutcomes) (store : LivePositionStore) (mark : ℚ) :
    Option CloseReason :=
  if pos.liquidation.any (·.action == .panicClose) then some .liquidationPanic
  else
    match slCloseReason store pos.positionId mark with
    | some reason => some reason
    | none =>
      match store.get pos.positionId with
      | none => none
      | some state =>
        if state.qtyRemaining ≤ 0 ∧ state.qtyFilled > 0 then some .tpComplete else none

/-- tick_dispatcher_loop.rs:218: gross less the taker fee on both legs. -/
def computeRealizedPnl (i : SweepInput) (store : LivePositionStore) (id : PositionId) (exit : ℚ) :
    Option ℚ := do
  let state ← store.get id
  let qty := state.qtyFilled
  if qty ≤ 0 then none
  else
    let entry := state.entryAvg
    let gross := match state.side with
      | .buy => (exit - entry) * qty
      | .sell => (entry - exit) * qty
    let feeRate := i.takerBps state.segment / 10000
    let fee := feeRate * (entry + exit) * qty
    some (gross - fee)

/-- "Persist closure + evict from store so no future tick processes it." -/
def closePosition (i : SweepInput) (id : PositionId) (reason : CloseReason) (mark : ℚ)
    (d : Dispatcher) : Dispatcher :=
  let realized := computeRealizedPnl i d.store id mark
  if i.closeOk id then
    { d with store := d.store.remove id, closed := d.closed ++ [⟨id, reason, realized⟩] }
  else d

/-! ## Persisting an outcome -/

def severityDbTag : LiquidationSeverity → Option String
  | .safe => none
  | .warn => some "warn"
  | .critical => some "high"
  | .breach => some "breach"

def actionDbTag : LiquidationAction → String
  | .none => "none"
  | .alert => "alert"
  | .addMargin => "add_margin"
  | .scaleOut => "scale_out"
  | .panicClose => "panic_close"

def scaleEventKind : ScaleDecisionKind → Option ScaleEventKind
  | .hold => none
  | .pyramidIn => some .scaleIn
  | .scaleOut => some .scaleOut
  | .addOnDip => some .addOnDip
  | .partialTp => some .partialTp

def ratchetEvent (pos : PositionTickOutcomes) : Option ℚ :=
  match pos.ratchet.kind with
  | .none => none
  | _ => pos.ratchet.newSl

def RatchetKind.debug : RatchetKind → String
  | .none => "None"
  | .breakeven => "Breakeven"
  | .trailing => "Trailing"
  | .chandelier => "Chandelier"

def liquidationRows (pos : PositionTickOutcomes) : List LiquidationEvent :=
  match pos.liquidation with
  | none => []
  | some liq =>
    match severityDbTag liq.severity with
    | none => []
    | some sev =>
      [⟨pos.positionId, sev, actionDbTag liq.action, liq.mark, liq.liquidation, liq.distancePct⟩]

def scaleRows (pos : PositionTickOutcomes) (mark : ℚ) : List ScaleEvent :=
  let scale := (scaleEventKind pos.scale.kind).toList.map fun kind =>
    (⟨pos.positionId, kind, mark, pos.scale.qtyDelta, pos.scale.reason, none⟩ : ScaleEvent)
  let ratchet := (ratchetEvent pos).toList.map fun _ =>
    (⟨pos.positionId, .ratchetSl, mark, 0, "ratchet=" ++ RatchetKind.debug pos.ratchet.kind, none⟩ :
      ScaleEvent)
  let tps := pos.tpTriggers.map fun trig =>
    (⟨pos.positionId, .partialTp, trig.price, -trig.qty, "tp_leg_" ++ toString trig.legIndex,
      some trig.legIndex⟩ : ScaleEvent)
  scale ++ ratchet ++ tps

/-- tick_dispatcher_loop.rs:265. -/
def persistOutcome (pos : PositionTickOutcomes) (mark : ℚ) (d : Dispatcher) : Dispatcher :=
  { d with
    liquidationEvents := d.liquidationEvents ++ liquidationRows pos
    scaleEvents := d.scaleEvents ++ scaleRows pos mark }

/-! ## A sweep -/

/-- The body of the loop over `outcomes.positions` (tick_dispatcher_loop.rs:113-132). -/
def dispatchOutcome (i : SweepInput) (mark : ℚ) (d : Dispatcher) (pos : PositionTickOutcomes) :
    Dispatcher :=
  if !pos.hasAction then
    match slCloseReason d.store pos.positionId mark with
    | some reason => closePosition i pos.positionId reason mark d
    | none => d
  else
    let d := persistOutcome pos mark d
    match closeReasonFor pos d.store mark with
    | some reason => closePosition i pos.positionId reason mark d
    | none => d

/-- Position `id` has been closed as `tp_complete`. -/
def Dispatcher.completed (d : Dispatcher) (id : PositionId) : Bool :=
  d.closed.any fun c => c.positionId == id && c.reason == .tpComplete

/-- One position of a sweep, recorded. -/
def evaluateOne (i : SweepInput) (mark : ℚ) (d : Dispatcher)
    (o : LivePositionState × PositionTickOutcomes) : Dispatcher :=
  let d := dispatchOutcome i mark d o.2
  { d with seen := d.seen ++ [⟨o.1, d.completed o.1.id⟩] }

/-- The price of a key, if there is one and it is not stale. -/
def freshTick (i : SweepInput) (key : TickKey) : Option PriceTick :=
  match i.prices key.exchange key.symbol with
  | none => none
  | some tick => if tick.ageMs i.now > i.staleSecs * 1000 then none else some tick

def sweepKey (i : SweepInput) (d : Dispatcher) (key : TickKey) : Dispatcher :=
  match freshTick i key with
  | none => d
  | some tick =>
    let (outcomes, store) := evaluateTick d.store key tick.mid tick.receivedAt .default .default
    outcomes.foldl (evaluateOne i tick.mid) { d with store := store }

/-- tick_dispatcher_loop.rs:92. -/
def sweep (d : Dispatcher) (i : SweepInput) : Dispatcher :=
  d.store.tickKeys.foldl (sweepKey i) d

/-! ## Hydrating -/

/-- An open row of `live_positions`; `tpLadder` is `none` where the JSON is not a ladder. -/
structure LivePositionRow where
  id : Uuid
  setupId : Option Uuid
  mode : String
  exchange : String
  segment : String
  symbol : String
  side : String
  leverage : ℤ
  entryAvg : ℚ
  qtyFilled : ℚ
  qtyRemaining : ℚ
  currentSl : Option ℚ
  tpLadder : Option (List TpLeg)
  liquidationPrice : Option ℚ
  maintMarginRatio : Option ℚ
  fundingRateNext : Option ℚ
  lastMark : Option ℚ
  lastTickAt : Option DateTime
  openedAt : DateTime
deriving DecidableEq

/-- `MarketSegment::parse` (live_position_store.rs:63). -/
def parseSegment (s : String) : Option Risk.MarketSegment :=
  match s.toLower with
  | "spot" => some .spot
  | "futures" | "perp" | "perpetual" => some .futures
  | "margin" => some .margin
  | "options" => some .options
  | _ => none

/-- tick_dispatcher_loop.rs:386. -/
def toState (row : LivePositionRow) : Option LivePositionState := do
  let mode ← match row.mode with
    | "dry" => some Risk.ExecutionMode.dry
    | "live" => some .live
    | _ => none
  let segment ← parseSegment row.segment
  let side ← match row.side with
    | "BUY" | "buy" | "long" => some PositionSide.buy
    | "SELL" | "sell" | "short" => some .sell
    | _ => none
  return {
    id := row.id, setupId := row.setupId, mode := mode, exchange := row.exchange, segment := segment,
    symbol := row.symbol, side := side,
    leverage := if 0 ≤ row.leverage ∧ row.leverage < 256 then row.leverage.toNat else 1,
    entryAvg := row.entryAvg, qtyFilled := row.qtyFilled, qtyRemaining := row.qtyRemaining,
    currentSl := row.currentSl, tpLadder := row.tpLadder.getD [],
    liquidationPrice := row.liquidationPrice, maintMarginRatio := row.maintMarginRatio,
    fundingRateNext := row.fundingRateNext, lastMark := row.lastMark, lastTickAt := row.lastTickAt,
    openedAt := row.openedAt }

/-- tick_dispatcher_loop.rs:367. -/
def hydrate (d : Dispatcher) (rows : List LivePositionRow) : Dispatcher :=
  { d with store := (rows.filterMap toState).foldl LivePositionStore.upsert d.store }

/-- What the loop does next. -/
inductive DispatcherOp where
  | hydrate (rows : List LivePositionRow)
  | sweep (i : SweepInput)

def dispatcherStep (d : Dispatcher) : DispatcherOp → Dispatcher
  | .hydrate rows => hydrate d rows
  | .sweep i => sweep d i

end Qtss.Worker
