import Qtss.Lib.Runs
import Qtss.Worker.AiTacticalExecutor
import Qtss.Worker.ExecutionBridge
/-
# Live entries and the halt flag

| here | there |
| --- | --- |
| `World.haltedSince` | `TRADING_HALTED` (qtss-common/src/kill_switch.rs:5), with the step at which it was set |
| `Op.halt`, `clear`  | `halt_trading`, `clear_trading_halt` |
| `bridge`            | `dispatch_live` (execution_bridge.rs:209), in the steps of `bridgeStep`: no check |
| `blockedByExecutionGates`, `rangeSide`, `liveBaseReady` | range_signal_execute_loop.rs:53, :71, :292 |
| `rangeList`, `rangeCheck`, `rangeRow` | the batch (:256), its one check, and a row of it (:295-446) |
| `aiTick`, `aiGates` | the loop of `ai_tactical_executor_loop` up to `execute_live_binance`, its check at the start of a tick included |
| `aiCheck`, `aiPlace` | ai_tactical_executor.rs:345 and the rest of `execute_live_binance`: each order has its own check |

The executors are tasks of one process and each waits between these steps, so the steps of all of them and of those that
set the flag come in any order. `World.clock` counts the steps and `World.sent` records what goes to the venue, neither is
a variable of the source.
-/

namespace Qtss.Worker.LiveEntries
open Runs
open AiTactical (Answers EngineSymbolRow Entry Executor ExecutorConfig)
open Execution.Dry (trim)

/-! ## Range signals -/

/-- `event_kind` is one of four. -/
structure RangeSignalEventPendingExecutionRow where
  id : Uuid
  eventKind : String
  exchange : String
deriving DecidableEq

/-- A gate is open unless the document closes it. -/
def gate (doc : Json) (key : String) : Bool :=
  (((doc.get "execution_gates").bind fun g => g.get key).bind Json.asBool).getD true

def blockedByExecutionGates (kind : String) (doc : Json) : Bool :=
  match kind with
  | "long_entry" => !gate doc "allow_long_open"
  | "short_entry" => !gate doc "allow_short_open"
  | "long_exit" | "short_exit" => !gate doc "allow_all_closes"
  | _ => true

/-- The side in `build_intent`. -/
def rangeSide : String → Option OrderSide
  | "long_entry" | "short_exit" => some .buy
  | "short_entry" | "long_exit" => some .sell
  | _ => none

def isEntryKind (kind : String) : Bool := kind = "long_entry" || kind = "short_entry"

/-- What a pass of the loop reads before its rows. -/
structure RangeConfig where
  liveOn : Bool
  liveConfirm : Bool
  liveTarget : Option (Uuid × Uuid)
  rangeDoc : Json

def liveBaseReady (cfg : RangeConfig) (isTradingHalted : Bool) : Bool :=
  cfg.liveOn && cfg.liveConfirm && cfg.liveTarget.isSome && !isTradingHalted

/-- A failed read or claim is `false`. -/
structure RangeAnswers where
  claimed : Bool
  /-- Credentials are there, and a client comes of them. -/
  client : Bool

/-- The order of a row goes to the venue. Every segment is spot or futures to `segment_from_engine`, and a row that is
`binance_row` has an exchange that parses. -/
def rangeSends (rangeDoc : Json) (ready : Bool) (row : RangeSignalEventPendingExecutionRow) (a : RangeAnswers) : Bool :=
  a.claimed && !blockedByExecutionGates row.eventKind rangeDoc && ready && eqIgnoreAsciiCase (trim row.exchange) "binance" &&
    (rangeSide row.eventKind).isSome && a.client

inductive RangeAt where
  | idle
  /-- The rows are read and the flag is not. -/
  | listed (cfg : RangeConfig) (rows : List RangeSignalEventPendingExecutionRow)
  | executing (rangeDoc : Json) (ready : Bool) (rows : List RangeSignalEventPendingExecutionRow)

/-! ## The bridge -/

/-- The order of the next row goes to the venue: it would be placed if the venue took it. -/
def bridgeSends (w : BridgeWorker) (i : DispatchInput) : Bool :=
  match w.tick.rows with
  | [] => false
  | row :: _ => row.mode = "live" && w.tick.liveEnabled &&
      (placeLive { i with venue := .ok ⟨0, none⟩ } row w.bridge.positions).isOk

/-! ## The AI tactical executor -/

inductive AiAt where
  | between
  /-- The gates have let the entry through, its own check is next. -/
  | gated (e : Entry)
  /-- The check was passed at a step. -/
  | checked (e : Entry) (at_ : ℕ)

/-- `place_with_venue_response` is reached. -/
def aiSends (cfg : ExecutorConfig) (e : Entry) (a : Answers) : Bool :=
  a.client && !(e.segment = .futures && cfg.leverage > 1 && !a.changeLeverageOk)

/-! ## All of them -/

/-- A live order that goes to the venue. -/
structure Sent where
  isEntry : Bool
  /-- When the flag that is set was set. -/
  haltedSince : Option ℕ
  /-- When the order's own check was passed. -/
  checkedAt : Option ℕ
deriving DecidableEq

structure World where
  clock : ℕ
  haltedSince : Option ℕ
  bridge : BridgeWorker
  range : RangeAt
  ai : Executor
  aiAt : AiAt
  sent : List Sent

def World.start (halted : Bool) (bridge : BridgeWorker) (ai : Executor) : World :=
  ⟨0, if halted then some 0 else none, bridge, .idle, ai, .between, []⟩

def World.isTradingHalted (w : World) : Bool := w.haltedSince.isSome

/-- The order is sent, or not. -/
def World.send (w : World) (sends isEntry : Bool) (checkedAt : Option ℕ) : World :=
  if sends then { w with sent := w.sent ++ [⟨isEntry, w.haltedSince, checkedAt⟩] } else w

inductive Op where
  | halt
  | clear
  | bridge (op : BridgeOp)
  | rangeList (cfg : RangeConfig) (rows : List RangeSignalEventPendingExecutionRow)
  | rangeCheck
  | rangeRow (a : RangeAnswers)
  | aiTick (engineSymbols : Option (List EngineSymbolRow))
  | aiGates (a : Answers)
  | aiCheck
  | aiPlace (a : Answers)

/-- A step of an executor or of the flag. -/
def act (toUppercase : String → String) (cfg : ExecutorConfig) (w : World) : Op → World
  | .halt => { w with haltedSince := w.haltedSince.or (some w.clock) }
  | .clear => { w with haltedSince := none }
  | .bridge op =>
    match op with
    | .dispatch i => { w with bridge := dispatchNext i w.bridge }.send (bridgeSends w.bridge i) true none
    | op => { w with bridge := bridgeStep w.bridge op }
  | .rangeList rangeCfg rows =>
    match w.range with
    | .idle => { w with range := .listed rangeCfg rows }
    | _ => w
  | .rangeCheck =>
    match w.range with
    | .listed rangeCfg rows =>
      { w with range := .executing rangeCfg.rangeDoc (liveBaseReady rangeCfg w.isTradingHalted) rows }
    | _ => w
  | .rangeRow a =>
    match w.range with
    | .executing _ _ [] => { w with range := .idle }
    | .executing rangeDoc ready (row :: rows) =>
      { w with range := .executing rangeDoc ready rows }.send (rangeSends rangeDoc ready row a)
        (isEntryKind row.eventKind) none
    | _ => w
  | .aiTick engineSymbols =>
    match w.aiAt with
    | .between => { w with ai := AiTactical.step toUppercase cfg w.ai (.tick w.isTradingHalted engineSymbols) }
    | _ => w
  | .aiGates a =>
    match w.aiAt, w.ai.engineSymbols with
    | .between, es :: rest =>
      match AiTactical.entryFor toUppercase cfg w.ai.tactical es a with
      | none => { w with ai.engineSymbols := rest }
      | some e =>
        if cfg.liveOn && a.accountPair.isSome then { w with ai.engineSymbols := rest, aiAt := .gated e }
        else { w with ai := AiTactical.execute cfg { w.ai with engineSymbols := rest } a e }
    | _, _ => w
  | .aiCheck =>
    match w.aiAt with
    | .gated e => { w with aiAt := if w.isTradingHalted then .between else .checked e w.clock }
    | _ => w
  | .aiPlace a =>
    match w.aiAt with
    | .checked e at_ =>
      { w with
        ai := AiTactical.executeLiveBinance cfg w.ai { a with isTradingHalted := false } e
        aiAt := .between }.send (aiSends cfg e a) true (some at_)
    | _ => w

def step (toUppercase : String → String) (cfg : ExecutorConfig) (w : World) (op : Op) : World :=
  { act toUppercase cfg w op with clock := w.clock + 1 }

/-! ## What is asked of the flag -/

/-- An entry that is sent while the flag is set had its own check passed before that. -/
def OwnCheck (x : Sent) : Prop := x.isEntry → ∀ since ∈ x.haltedSince, ∃ at_ ∈ x.checkedAt, at_ < since

instance (x : Sent) : Decidable (OwnCheck x) := inferInstanceAs (Decidable (_ → _))

def HaltRespected (w : World) : Prop := ∀ x ∈ w.sent, OwnCheck x

instance (w : World) : Decidable (HaltRespected w) := inferInstanceAs (Decidable (∀ x ∈ w.sent, OwnCheck x))

/-- While the flag is set, the bridge does not come to a live candidate that it sends, nor the range batch to an entry
that it sends on a check of before. -/
def NothingLeft (w : World) : Op → Prop
  | .bridge (.dispatch i) => w.isTradingHalted → bridgeSends w.bridge i = false
  | .rangeRow a =>
    match w.range with
    | .executing rangeDoc ready (row :: _) =>
      w.isTradingHalted → isEntryKind row.eventKind → rangeSends rangeDoc ready row a = false
    | _ => True
  | _ => True

end Qtss.Worker.LiveEntries
