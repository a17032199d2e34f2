import Mathlib.Algebra.Ring.Rat
import Qtss.Worker.Allocator
import Qtss.Worker.BridgeDispatch
/-
# Who closes a position

Four loops share `live_positions`: the execution bridge inserts the rows, and three others close them, each
with an UPDATE of its own.

| here | there |
| --- | --- |
| `closeRows`      | the three UPDATEs: `WHERE … AND closed_at IS NULL`, what `close_reason` and `realized_pnl_quote` become |
| `mtmRealized`    | time_stop_loop.rs:165, allocator_v2_loop.rs:901: the `COALESCE` of both |
| `TimeStopInput`, `TimeStopSetup` | `run_tick` (time_stop_loop.rs:109): what it reads, a row of its SELECT |
| `Desk`           | the table with the store, the tick that is being dispatched, and the orders the broker has acknowledged |
| `DeskOp.price`, `DeskOp.outcome` | `run_sweep` (tick_dispatcher_loop.rs:92): the evaluation of a key, the body of the loop over its outcomes |
| `DeskOp.timeStop`, `DeskOp.supersede` | time_stop_loop.rs:121-174, allocator_v2_loop.rs:896-910 |
| `withKey`        | `live_positions.id` is the primary key |

A statement that fails is an `ok` flag that is false. `closures` keeps a closed row as it was when it was open,
with the partial take-profits recorded for it by then and the value the statement stored; `acked` says what each
order was for. Both are records kept for the proofs.
-/

namespace Qtss.Worker
open Storage Risk

/-! ## Closing -/

/-- A partial take-profit, as recorded in `position_scale_events`. -/
structure Slice where
  price : ℚ
  qty : ℚ
deriving DecidableEq

/-- The partial take-profits recorded for a position. -/
def slicesOf (events : List ScaleEvent) (id : Uuid) : List Slice :=
  events.filterMap fun e =>
    if e.positionId = id ∧ e.eventKind = .partialTp then some ⟨e.price, -e.qtyDelta⟩ else none

/-- A row that was closed: the row as it was, the mark it was closed at, and what was stored. -/
structure Closure where
  row : LivePosition
  mark : Option ℚ
  slices : List Slice
  reason : String
  realizedPnlQuote : Option ℚ
deriving DecidableEq

/-- `CASE WHEN side = 'BUY' THEN 1 ELSE -1 END`. -/
def sideSign (side : String) : ℚ := if side = "BUY" then 1 else -1

/-- `COALESCE((last_mark - entry_avg) * qty_remaining * …, 0)`. -/
def mtmRealized (row : LivePosition) : ℚ :=
  ((row.lastMark.map fun mark => (mark - row.entryAvg) * row.qtyRemaining * sideSign row.side)).getD 0

/-! ## The time stop -/

structure TimeStopInput where
  tMax : ℤ
  dMax : ℤ
  now : DateTime
  closeOk : Bool
deriving DecidableEq

structure TimeStopSetup where
  id : Uuid
  timeframe : String
  profile : String
  createdAt : DateTime
  state : SetupStateKind
  closedAt : Option DateTime
  tp1Hit : Option Bool
deriving DecidableEq

/-- The `WHERE` of time_stop_loop.rs:116. -/
def TimeStopSetup.selected (r : TimeStopSetup) : Bool :=
  (r.state == .armed || r.state == .active) && r.closedAt.isNone && !r.tp1Hit.getD false

/-- Both divisions round towards zero. -/
def TimeStopSetup.ageBars (r : TimeStopSetup) (now : DateTime) : ℤ :=
  ((now - r.createdAt).tdiv 60).tdiv (max (Allocator.tfBarMinutes r.timeframe) 1)

def TimeStopInput.cap (t : TimeStopInput) (profile : String) : ℤ :=
  match profile with
  | "t" => t.tMax
  | _ => t.dMax

/-- The setup is closed by edge decay. -/
def TimeStopInput.overdue (t : TimeStopInput) (r : TimeStopSetup) : Bool :=
  r.selected && !(r.ageBars t.now < t.cap r.profile)

/-! ## The desk -/

/-- What an order is placed for. -/
inductive OrderPurpose where
  | entry (candidateId : ℕ)
  | exit (positionId : Uuid)
deriving DecidableEq

/-- An order that the broker has acknowledged. -/
structure AckedOrder where
  purpose : OrderPurpose
  intent : V1.OrderIntent

structure Desk where
  bridge : BridgeWorker
  /-- `commission.….taker_bps`. -/
  takerBps : Risk.MarketSegment → ℚ
  /-- The outcomes of the key under evaluation, with the mark. -/
  dispatching : List (ℚ × PositionTickOutcomes)
  scaleEvents : List ScaleEvent
  closures : List Closure
  acked : List AckedOrder

def Desk.positions (s : Desk) : PositionTable := s.bridge.bridge.positions

def Desk.store (s : Desk) : LivePositionStore := s.bridge.bridge.store

def Desk.start (setups : List SetupRow) (takerBps : Risk.MarketSegment → ℚ) : Desk :=
  ⟨.start [] setups, takerBps, [], [], [], []⟩

inductive DeskOp where
  | enqueue (id : ℕ) (c : InsertSelectedCandidate) (now : DateTime)
  | claim (c : ClaimInput)
  | dispatch (i : DispatchInput)
  /-- `hydrate` with what the table holds. -/
  | hydrate
  /-- A sweep comes to a key; whatever was being dispatched is lost. -/
  | price (i : SweepInput) (key : TickKey)
  /-- The next outcome of that key. -/
  | outcome (i : SweepInput) (markOk : Bool)
  | timeStop (t : TimeStopInput) (r : TimeStopSetup)
  /-- A setup that was retired for one of a higher timeframe. -/
  | supersede (setupId : Uuid) (closeOk : Bool) (now : DateTime)

/-- An UPDATE that closes: `hits` is the rest of its `WHERE`, `mark` the price the row is closed at. -/
def closeRows (hits : LivePosition → Bool) (mark value : LivePosition → Option ℚ) (reason : String)
    (now : DateTime) (s : Desk) : Desk :=
  { s with
    bridge.bridge.positions := s.positions.map fun p =>
      if hits p ∧ p.closedAt.isNone then { p with closedAt := some now, closeReason := some reason } else p
    closures := s.closures ++ (s.positions.filter fun p => hits p && p.closedAt.isNone).map fun p =>
      ⟨p, mark p, slicesOf s.scaleEvents p.id, reason, value p⟩ }

/-- What an UPDATE of `live_positions` by setup closes. -/
def closeSetupRows (setupId : Uuid) (reason : String) (now : DateTime) (s : Desk) : Desk :=
  closeRows (fun p => p.setupId == some setupId) (·.lastMark) (fun p => some (mtmRealized p)) reason now s

/-! ### The bridge -/

/-- An id that is taken is refused. -/
def withKey (positions : PositionTable) (i : DispatchInput) : DispatchInput :=
  match i.insertPosition with
  | .ok id =>
    if positions.any (·.id == id) then
      { i with insertPosition := .error "duplicate key value violates unique constraint \"live_positions_pkey\"" }
    else i
  | .error _ => i

/-- The order of a live dispatch, if the broker acknowledges it. -/
def ackedBy (i : DispatchInput) (w : BridgeWorker) : List AckedOrder :=
  match w.tick.rows with
  | [] => []
  | row :: _ =>
    if row.mode = "live" ∧ w.tick.liveEnabled then
      match placeLive i row w.bridge.positions with
      | .error _ => []
      | .ok (live, _) =>
        match buildOrderIntent live with
        | .error _ => []
        | .ok intent => [⟨.entry row.id, intent⟩]
    else []

/-! ### The tick dispatcher -/

/-- "Always flush the mark so live_positions.last_mark is current." -/
def flushMark (id : Uuid) (mark : ℚ) (positions : PositionTable) : PositionTable :=
  positions.map fun p => if p.id = id ∧ p.closedAt.isNone then { p with lastMark := some mark } else p

/-- The reason that the body of the loop over the outcomes closes a position for. -/
def closingReason (store : LivePositionStore) (mark : ℚ) (pos : PositionTickOutcomes) : Option CloseReason :=
  if !pos.hasAction then slCloseReason store pos.positionId mark else closeReasonFor pos store mark

/-- `close_live_position`, and out of the store. -/
def closeFromTick (i : SweepInput) (mark : ℚ) (pos : PositionTickOutcomes) (reason : CloseReason) (s : Desk) :
    Desk :=
  if i.closeOk pos.positionId then
    let realized := computeRealizedPnl { i with takerBps := s.takerBps } s.store pos.positionId mark
    let s := closeRows (·.id == pos.positionId) (fun _ => some mark) (fun _ => realized) reason.asDbStr i.now s
    { s with bridge.bridge.store := s.store.remove pos.positionId }
  else s

/-- `update_live_position_mark` and `persist_outcome`. -/
def recordTick (markOk : Bool) (mark : ℚ) (pos : PositionTickOutcomes) (s : Desk) : Desk :=
  { s with
    bridge.bridge.positions := if markOk then flushMark pos.positionId mark s.positions else s.positions
    scaleEvents := if pos.hasAction then s.scaleEvents ++ scaleRows pos mark else s.scaleEvents }

/-- The body of the loop over the outcomes (tick_dispatcher_loop.rs:113-132). -/
def dispatchTick (i : SweepInput) (markOk : Bool) (mark : ℚ) (pos : PositionTickOutcomes) (s : Desk) : Desk :=
  let s := recordTick markOk mark pos s
  match closingReason s.store mark pos with
  | some reason => closeFromTick i mark pos reason s
  | none => s

/-- The open rows, as `list_open_live_positions` reads them. -/
def openRows (positions : PositionTable) : List LivePositionRow :=
  (positions.filter (·.closedAt.isNone)).map rowOf

def deskStep (s : Desk) : DeskOp → Desk
  | .enqueue id c now => { s with bridge := bridgeStep s.bridge (.enqueue id c now) }
  | .claim c => { s with bridge := bridgeStep s.bridge (.claim c) }
  | .dispatch i =>
    let i := withKey s.positions i
    { s with bridge := bridgeStep s.bridge (.dispatch i), acked := s.acked ++ ackedBy i s.bridge }
  | .hydrate =>
    { s with bridge.bridge.store :=
        ((openRows s.positions).filterMap toState).foldl LivePositionStore.upsert s.store }
  | .price i key =>
    match freshTick i key with
    | none => { s with dispatching := [] }
    | some tick =>
      let (outcomes, store) := evaluateTick s.store key tick.mid tick.receivedAt .default .default
      { s with bridge.bridge.store := store, dispatching := outcomes.map fun o => (tick.mid, o.2) }
  | .outcome i markOk =>
    match s.dispatching with
    | [] => s
    | (mark, pos) :: rest => dispatchTick i markOk mark pos { s with dispatching := rest }
  | .timeStop t r =>
    if t.overdue r && t.closeOk then closeSetupRows r.id "time_stop" t.now s else s
  | .supersede setupId closeOk now =>
    if closeOk then closeSetupRows setupId "setup_superseded" now s else s

/-! ## What the steps do -/

/-- The rows that the UPDATE of a step is for, were they open. -/
def closes (s : Desk) : DeskOp → LivePosition → Bool
  | .outcome i _, p =>
    match s.dispatching with
    | [] => false
    | (mark, pos) :: _ =>
      (closingReason s.store mark pos).isSome && i.closeOk pos.positionId && p.id == pos.positionId
  | .timeStop t r, p => t.overdue r && t.closeOk && p.setupId == some r.id
  | .supersede setupId closeOk _, p => closeOk && p.setupId == some setupId
  | _, _ => false

/-- `store.upsert(state)`, for what `buildLiveState` gives. -/
def loadState (id : Uuid) (live : InsertLivePosition) (now : DateTime) (store : LivePositionStore) :
    LivePositionStore :=
  match buildLiveState id live now with
  | some state => store.upsert state
  | none => store

/-- A dispatch opens one position, in the table and in the store, or leaves both alone. -/
inductive Opens (i : DispatchInput) (b b' : Bridge) : Prop where
  | nothing : b'.positions = b.positions → b'.store = b.store → Opens i b b'
  | position {orgId userId : Uuid} {row : SelectedCandidateRow} {mode : Risk.ExecutionMode} {id : Uuid} :
      i.insertPosition = .ok id →
      b'.positions = b.positions.insertLive (positionOf i.entry.cfg orgId userId row mode) id i.now →
      b'.store = loadState id (positionOf i.entry.cfg orgId userId row mode) i.now b.store → Opens i b b'

theorem persistPosition_opens (i : DispatchInput) (b : Bridge) (orgId userId : Uuid) (row : SelectedCandidateRow)
    (mode : Risk.ExecutionMode) :
    Opens i b (persistPosition i (positionOf i.entry.cfg orgId userId row mode) b).1 := by
  unfold persistPosition
  split
  next id hid => exact .position hid rfl rfl
  next => exact .nothing rfl rfl

theorem dispatchDry_opens (i : DispatchInput) (row : SelectedCandidateRow) (b : Bridge) :
    Opens i b (dispatchDry i row b).bridge := by
  unfold dispatchDry
  split
  next live hlive =>
    obtain ⟨orgId, userId, rfl⟩ := build_eq_some hlive
    exact persistPosition_opens ..
  next => exact .nothing rfl rfl

theorem dispatchLive_opens (i : DispatchInput) (row : SelectedCandidateRow) (b : Bridge) :
    Opens i b (dispatchLive i row b).bridge := by
  unfold dispatchLive
  split
  next => exact .nothing rfl rfl
  next live venue hplace =>
    obtain ⟨hlive, -⟩ := placeLive_eq_ok.1 hplace
    obtain ⟨orgId, userId, rfl⟩ := build_eq_some hlive
    split
    next => exact .nothing rfl rfl
    next =>
      rcases persistPosition_opens i { b with orders := b.orders ++ [_] } _ _ row _
        with ⟨hpos, hstore⟩ | ⟨hid, hpos, hstore⟩
      · exact .nothing hpos hstore
      · exact .position hid hpos hstore

theorem dispatch_opens (i : DispatchInput) (row : SelectedCandidateRow) (dryEnabled liveEnabled : Bool)
    (b : Bridge) : Opens i b (dispatch i row dryEnabled liveEnabled b).bridge := by
  unfold dispatch
  split
  · split
    · exact dispatchDry_opens i row b
    · exact .nothing rfl rfl
  · split
    · exact dispatchLive_opens i row b
    · exact .nothing rfl rfl
  all_goals exact .nothing rfl rfl

theorem processRow_opens (i : DispatchInput) (row : SelectedCandidateRow) (dryEnabled liveEnabled : Bool)
    (b : Bridge) : Opens i b (processRow i row dryEnabled liveEnabled b).1 := by
  have hstore : (processRow i row dryEnabled liveEnabled b).1.store =
      (dispatch i row dryEnabled liveEnabled b).bridge.store := by
    unfold processRow
    simp only
    split
    · rfl
    · split <;> rfl
  rcases dispatch_opens i row dryEnabled liveEnabled b with ⟨hpos, hst⟩ | ⟨hid, hpos, hst⟩
  · exact .nothing (processRow_positions.trans hpos) (hstore.trans hst)
  · exact .position hid (processRow_positions.trans hpos) (hstore.trans hst)

theorem dispatchNext_opens (i : DispatchInput) (w : BridgeWorker) :
    Opens i w.bridge (dispatchNext i w).bridge := by
  cases hrows : w.tick.rows with
  | nil =>
    rw [dispatchNext, hrows]
    exact .nothing rfl rfl
  | cons row rows =>
    rw [dispatchNext_cons hrows]
    exact processRow_opens i row w.tick.dryEnabled w.tick.liveEnabled w.bridge

/-- A new id is not one of the table's. -/
theorem withKey_fresh {positions : PositionTable} {i : DispatchInput} {id : Uuid}
    (h : (withKey positions i).insertPosition = .ok id) : ∀ p ∈ positions, p.id ≠ id := by
  unfold withKey at h
  split at h
  next id' hid =>
    split at h
    next => cases h
    next hfresh =>
      intro p hp heq
      rw [hid] at h
      obtain rfl := Except.ok.inj h
      exact hfresh (List.any_eq_true.2 ⟨p, hp, by simp [heq]⟩)
  next e he => rw [he] at h; cases h

/-- Every order the bridge has acknowledged is an entry. -/
theorem ackedBy_entry {i : DispatchInput} {w : BridgeWorker} {o : AckedOrder} (h : o ∈ ackedBy i w) :
    ∃ c, o.purpose = .entry c := by
  unfold ackedBy at h
  split at h
  next => cases h
  next row rows hrows =>
    split at h
    next =>
      split at h
      next => cases h
      next =>
        split at h
        next => cases h
        next =>
          obtain rfl := List.mem_singleton.1 h
          exact ⟨row.id, rfl⟩
    next => cases h

/-- In the store and in `position_scale_events` a step of the desk does what the loop's body does. -/
theorem dispatchTick_eq_dispatchOutcome (i : SweepInput) (markOk : Bool) (mark : ℚ) (pos : PositionTickOutcomes)
    (s : Desk) :
    (dispatchTick i markOk mark pos s).store =
        (dispatchOutcome i mark ⟨s.store, s.scaleEvents, [], [], []⟩ pos).store ∧
      (dispatchTick i markOk mark pos s).scaleEvents =
        (dispatchOutcome i mark ⟨s.store, s.scaleEvents, [], [], []⟩ pos).scaleEvents := by
  unfold dispatchTick recordTick dispatchOutcome closingReason
  cases pos.hasAction with
  | false =>
    simp only [Desk.store, Bool.not_false, if_true, Bool.false_eq_true, if_false]
    cases slCloseReason s.bridge.bridge.store pos.positionId mark with
    | none => exact ⟨rfl, rfl⟩
    | some reason =>
      simp only [closeFromTick, closePosition]
      split <;> exact ⟨rfl, rfl⟩
  | true =>
    simp only [Desk.store, Bool.not_true, Bool.false_eq_true, if_false, if_true, persistOutcome]
    cases closeReasonFor pos s.bridge.bridge.store mark with
    | none => exact ⟨rfl, rfl⟩
    | some reason =>
      simp only [closeFromTick, closePosition]
      split <;> exact ⟨rfl, rfl⟩

/-- The market at a price. -/
def marketAt (price : ℚ) : SweepInput :=
  ⟨fun _ _ => some ⟨price, price, 3⟩, 3, 30, fun _ => 5, fun _ => true⟩

def liveBtc : TickKey := ⟨.live, "binance", .futures, "BTCUSDT"⟩

end Qtss.Worker
