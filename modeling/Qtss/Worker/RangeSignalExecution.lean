import Qtss.Lib.ClaimOnce
import Qtss.Lib.Keyed
import Qtss.Worker.LiveEntries
/-
# Range signals and their executions (`qtss-worker/src/range_signal_execute_loop.rs`)

Any number of workers list the events that have no execution row, and claim, execute and close them one by one.

| here | there |
| --- | --- |
| `PendingExecutionRow`, `Execution` | range_signal_execution.rs:12, and a row of `range_signal_paper_executions`: `processing` is no status |
| `tryClaim`, `updateStatus` | range_signal_execution.rs:66, :84 |
| `buildIntent`     | range_signal_execute_loop.rs:71; `toLowercase`, `toUppercase` are the two of `str` |
| `executeLive`, `executePaper`, `executeRow` | :325-446, :452-556, :306-556: the order that is placed, and the status that is to be written |
| `Pass`            | what a pass of the loop reads before its rows (:144-293) |
| `Desk`, `step`    | the table, the workers and the orders; a step is one statement of a worker, or its end |

The claim is an insert with `ON CONFLICT DO NOTHING`, and nothing deletes a row, so an event is executed once. A live
order that the venue refuses is `failed` and is not tried on paper. The status comes last, and `let _ =` drops its
error: a worker that stops before it, or whose UPDATE fails, leaves its event in `processing`.
-/

namespace Qtss.Worker.RangeSignals
open Keyed Runs LiveEntries
open Execution.Dry (trim)

/-! ## The table -/

structure PendingExecutionRow extends RangeSignalEventPendingExecutionRow where
  segment : String
  symbol : String
  /-- The inner `none` is a number that is not finite. -/
  referencePrice : Option (Option ℚ)
deriving DecidableEq

inductive FinalStatus where
  | skippedGated | skippedNoExecutor | failed | placedLive | placedPaper
deriving DecidableEq, Repr

def FinalStatus.asDbStr : FinalStatus → String
  | .skippedGated => "skipped_gated"
  | .skippedNoExecutor => "skipped_no_executor"
  | .failed => "failed"
  | .placedLive => "placed_live"
  | .placedPaper => "placed_paper"

structure Execution where
  /-- `none` is `processing`. -/
  status : Option FinalStatus
  clientOrderId : Option Uuid
  errorMessage : Option String
deriving DecidableEq

abbrev ExecutionTable := HashMap Uuid Execution

/-- What `update_range_signal_paper_execution_status` is called with. -/
structure StatusWrite where
  status : FinalStatus
  clientOrderId : Option Uuid
  errorMessage : Option String
deriving DecidableEq

/-- Whether this worker won the row, and the table. -/
def tryClaim (t : ExecutionTable) (id : Uuid) : Bool × ExecutionTable :=
  if (t.lookup id).isSome then (false, t) else (true, t.insert id ⟨none, none, none⟩)

def updateStatus (t : ExecutionTable) (id : Uuid) (u : StatusWrite) : ExecutionTable :=
  adjust (fun e => { e with
    status := some u.status, clientOrderId := u.clientOrderId <|> e.clientOrderId,
    errorMessage := u.errorMessage }) id t

/-! ## Orders -/

def segmentFromEngine (toLowercase : String → String) (raw : String) : MarketSegment :=
  match toLowercase (trim raw) with
  | "futures" | "usdt_futures" | "fapi" | "future" => .futures
  | _ => .spot

/-- `ExchangeId::from_str`. -/
def exchangeFromStr : String → Option ExchangeId
  | "binance" => some .binance
  | "bybit" => some .bybit
  | "okx" => some .okx
  | "custom" => some .custom
  | _ => none

def buildIntent (toLowercase toUppercase : String → String) (row : PendingExecutionRow) (qty : ℚ) :
    Except String V1.OrderIntent :=
  match exchangeFromStr (toLowercase (trim row.exchange)) with
  | none => .error ("unsupported exchange: " ++ row.exchange)
  | some exchange =>
    match rangeSide row.eventKind with
    | none => .error ("unsupported event_kind: " ++ row.eventKind)
    | some side => .ok {
        instrument := ⟨exchange, segmentFromEngine toLowercase row.segment, toUppercase (trim row.symbol)⟩
        side := side, quantity := qty, orderType := .market, requiresHumanApproval := false }

/-- An order that was placed. -/
structure RangeOrder where
  mode : Risk.ExecutionMode
  intent : V1.OrderIntent

structure Pass where
  cfg : RangeConfig
  isTradingHalted : Bool
  paperOn : Bool
  /-- There is a paper ledger, or a mirror of it. -/
  paperGateway : Bool
  qtyPaper : ℚ
  qtyLive : ℚ

/-- How the calls for a row end. -/
structure Answers where
  /-- A row or none, or a failed read. -/
  credentials : Except String Bool
  client : Except String Unit
  venue : Except String VenueResponse
  setReferencePrice : Except String Unit
  dryPlace : Except String Uuid

abbrev Outcome := Option RangeOrder × StatusWrite

def failed (msg : String) : Outcome := (none, ⟨.failed, none, some msg⟩)

/-- The range of `Decimal`. -/
def decimalFromF64 (q : ℚ) : Option ℚ := if |q| ≤ 79228162514264337593543950335 then some q else none

variable (toLowercase toUppercase : String → String)

/-- `none` where the row goes on to the paper part. A failed `insert_submitted` is only logged. -/
def executeLive (p : Pass) (row : PendingExecutionRow) (a : Answers) : Option Outcome :=
  if liveBaseReady p.cfg p.isTradingHalted && eqIgnoreAsciiCase (trim row.exchange) "binance" then
    match buildIntent toLowercase toUppercase row p.qtyLive with
    | .error msg => some (failed msg)
    | .ok intent =>
      match a.credentials with
      | .error e => some (failed ("exchange_accounts: " ++ e))
      | .ok false => none
      | .ok true =>
        match a.client with
        | .error e => some (failed ("binance_client: " ++ e))
        | .ok () =>
          match placeWithVenueResponse intent a.venue with
          | .ok venue => some (some ⟨.live, intent⟩, ⟨.placedLive, some venue.clientOrderId, none⟩)
          | .error e => some (some ⟨.live, intent⟩, ⟨.failed, none, some e⟩)
  else none

def executePaper (p : Pass) (row : PendingExecutionRow) (a : Answers) : Outcome :=
  if !p.paperOn || !p.paperGateway then
    (none, ⟨.skippedNoExecutor, none, some "paper_disabled_or_no_paper_targets"⟩)
  else
    match row.referencePrice.join.filter (0 < ·) with
    | none => failed "missing_or_invalid_reference_price"
    | some px =>
      match decimalFromF64 px with
      | none => failed "reference_price_decimal"
      | some _ =>
        match buildIntent toLowercase toUppercase row p.qtyPaper with
        | .error msg => failed msg
        | .ok intent =>
          match a.setReferencePrice with
          | .error e => failed ("set_reference_price: " ++ e)
          | .ok () =>
            match a.dryPlace with
            | .ok cid => (some ⟨.dry, intent⟩, ⟨.placedPaper, some cid, none⟩)
            | .error e => (some ⟨.dry, intent⟩, ⟨.failed, none, some e⟩)

/-- What becomes of a claimed row. -/
def executeRow (p : Pass) (row : PendingExecutionRow) (a : Answers) : Outcome :=
  if blockedByExecutionGates row.eventKind p.cfg.rangeDoc then
    (none, ⟨.skippedGated, none, some "execution_gates"⟩)
  else (executeLive toLowercase toUppercase p row a).getD (executePaper toLowercase toUppercase p row a)

/-! ## Workers -/

inductive At where
  | idle
  | listed (p : Pass) (rows : List PendingExecutionRow)
  | claimed (p : Pass) (row : PendingExecutionRow) (rest : List PendingExecutionRow)
  /-- The order is out, if there is one, and the status is not written. -/
  | closing (p : Pass) (id : Uuid) (u : StatusWrite) (rest : List PendingExecutionRow)

structure Desk where
  executions : ExecutionTable
  workers : ℕ → At
  sent : List (Uuid × RangeOrder)

def Desk.start : Desk := ⟨∅, fun _ => .idle, []⟩

inductive Op where
  /-- A pass begins, with events of the last hours. -/
  | list (w : ℕ) (p : Pass) (events : List PendingExecutionRow)
  | claim (w : ℕ) (ok : Bool)
  | execute (w : ℕ) (a : Answers)
  | close (w : ℕ) (ok : Bool)
  | crash (w : ℕ)

def Desk.setWorker (s : Desk) (w : ℕ) (at_ : At) : Desk := { s with workers := Function.update s.workers w at_ }

def step (s : Desk) : Op → Desk
  | .list w p events =>
    match s.workers w with
    | .idle => s.setWorker w (.listed p (events.filter fun row => (s.executions.lookup row.id).isNone))
    | _ => s
  | .claim w ok =>
    match s.workers w with
    | .listed _ [] => s.setWorker w .idle
    | .listed p (row :: rest) =>
      match ok, tryClaim s.executions row.id with
      | true, (true, t) => { s with executions := t }.setWorker w (.claimed p row rest)
      | _, _ => s.setWorker w (.listed p rest)
    | _ => s
  | .execute w a =>
    match s.workers w with
    | .claimed p row rest =>
      let (order, u) := executeRow toLowercase toUppercase p row a
      { s with sent := s.sent ++ (order.map fun o => (row.id, o)).toList }.setWorker w (.closing p row.id u rest)
    | _ => s
  | .close w ok =>
    match s.workers w with
    | .closing p id u rest =>
      { s with executions := if ok then updateStatus s.executions id u else s.executions }.setWorker w
        (.listed p rest)
    | _ => s
  | .crash w => s.setWorker w .idle

/-! ## The claims behind it -/

def At.phase : At → ClaimOnce.Phase Uuid FinalStatus
  | .idle | .listed _ _ => .idle
  | .claimed _ row _ => .claimed row.id
  | .closing _ id u _ => .closing id u.status

def Execution.row (e : Execution) : ClaimOnce.Row FinalStatus :=
  match e.status with
  | none => .opened
  | some status => .closed status

/-- The keys are the events, and only the rows and who has which matter. -/
def Desk.claims (s : Desk) : ClaimOnce.State Uuid FinalStatus RangeOrder where
  row id := (s.executions.lookup id).map (·.row)
  worker w := (s.workers w).phase
  sent := s.sent

/-- What a step is to the claims. -/
def Op.onClaims (s : Desk) : Op → ClaimOnce.Op Uuid FinalStatus RangeOrder
  | .list _ _ _ => .rest
  | .claim w ok =>
    match s.workers w, ok with
    | .listed _ (row :: _), true => .claim w row.id
    | _, _ => .rest
  | .execute w a =>
    match s.workers w with
    | .claimed p row _ =>
      .work w (executeRow toLowercase toUppercase p row a).1 (executeRow toLowercase toUppercase p row a).2.status
    | _ => .rest
  | .close w ok =>
    match s.workers w with
    | .closing _ _ _ _ => .close w ok
    | _ => .rest
  | .crash w => .crash w

variable {toLowercase toUppercase} {s : Desk} {w : ℕ} {id : Uuid}

theorem claims_setWorker {at_ : At} : (s.setWorker w at_).claims = s.claims.setWorker w at_.phase := by
  ext w'
  · rfl
  · simp only [Desk.claims, Desk.setWorker, Function.update_apply, ClaimOnce.State.setWorker]
    split <;> rfl
  · rfl

theorem claims_tryClaim {t : ExecutionTable} (h : tryClaim s.executions id = (true, t)) :
    s.claims.row id = none ∧ ({ s with executions := t } : Desk).claims = s.claims.setRow id .opened := by
  unfold tryClaim at h
  split at h
  next => cases h
  next hfree =>
    obtain ⟨-, rfl⟩ := Prod.mk.inj h
    have hnone := Option.not_isSome_iff_eq_none.1 hfree
    refine ⟨by simp [Desk.claims, hnone], ?_⟩
    ext id'
    · simp only [Desk.claims, ClaimOnce.State.setRow_row, lookup_insert_eq]
      split <;> rfl
    · rfl
    · rfl

theorem claims_tryClaim_false {t : ExecutionTable} (h : tryClaim s.executions id = (false, t)) :
    s.claims.row id ≠ none := by
  unfold tryClaim at h
  split at h
  next htaken =>
    obtain ⟨e, he⟩ := Option.isSome_iff_exists.1 htaken
    simp [Desk.claims, he]
  next => cases h

theorem claims_updateStatus {u : StatusWrite} (h : s.claims.row id ≠ none) :
    ({ s with executions := updateStatus s.executions id u } : Desk).claims =
      s.claims.setRow id (.closed u.status) := by
  ext id'
  · simp only [Desk.claims, updateStatus, ClaimOnce.State.setRow_row, lookup_adjust]
    split
    next heq =>
      subst heq
      cases hlook : s.executions.lookup id' with
      | none => simp [Desk.claims, hlook] at h
      | some e => rfl
    next => rfl
  · rfl
  · rfl

theorem claims_worker {at_ : At} (h : s.workers w = at_) : s.claims.worker w = at_.phase := by
  rw [← h]
  rfl

/-- A worker that goes on without a key. -/
theorem claims_goOn {at_ : At} (h : (s.workers w).phase = at_.phase) : (s.setWorker w at_).claims = s.claims := by
  rw [claims_setWorker, ClaimOnce.State.setWorker_self h]

variable (toLowercase toUppercase) in
/-- **The refinement**: a step of the loop is a step of the claims. A worker closes a row that is there. -/
theorem claims_step (s : Desk) (op : Op) (h : s.claims.Inv) :
    (step toLowercase toUppercase s op).claims = s.claims.step (op.onClaims toLowercase toUppercase s) := by
  cases op with
  | list w p events =>
    simp only [step, Op.onClaims]
    split
    next hw => exact claims_goOn (by rw [hw]; rfl)
    next => rfl
  | claim w ok =>
    cases hw : s.workers w with
    | listed p rows =>
      have hidle := claims_worker hw
      cases rows with
      | nil =>
        simp only [step, Op.onClaims, hw]
        exact claims_goOn (by rw [hw]; rfl)
      | cons row rest =>
        cases ok with
        | false =>
          simp only [step, Op.onClaims, hw]
          exact claims_goOn (by rw [hw]; rfl)
        | true =>
          cases hclaim : tryClaim s.executions row.id with
          | mk won t =>
            cases won with
            | true =>
              obtain ⟨hnone, hset⟩ := claims_tryClaim hclaim
              simp only [step, Op.onClaims, hw, hclaim, claims_setWorker, hset]
              simp only [ClaimOnce.State.step, hidle, hnone, At.phase]
            | false =>
              have htaken := claims_tryClaim_false hclaim
              simp only [step, Op.onClaims, hw, hclaim]
              rw [claims_goOn (by rw [hw]; rfl), ClaimOnce.State.step]
              split
              next hnone => exact absurd hnone htaken
              next => rfl
    | _ =>
      simp only [step, Op.onClaims, hw]
      rfl
  | execute w a =>
    cases hw : s.workers w with
    | claimed p row rest =>
      have hphase := claims_worker hw
      simp only [step, Op.onClaims, hw, claims_setWorker]
      simp only [ClaimOnce.State.step, hphase, At.phase]
      rfl
    | _ =>
      simp only [step, Op.onClaims, hw]
      rfl
  | close w ok =>
    cases hw : s.workers w with
    | closing p id u rest =>
      have hphase := claims_worker hw
      simp only [step, Op.onClaims, hw, claims_setWorker]
      simp only [ClaimOnce.State.step, hphase, At.phase]
      cases ok with
      | false => rfl
      | true =>
        obtain ⟨r, hr, -⟩ := h.held w id (by rw [hphase]; rfl)
        have hthere : s.claims.row id ≠ none := by
          rw [hr]
          exact Option.some_ne_none r
        simp only [if_true, claims_updateStatus hthere]
    | _ =>
      simp only [step, Op.onClaims, hw]
      rfl
  | crash w => exact claims_setWorker

/-! ## At most once, and never stuck -/

variable (toLowercase toUppercase)

/-- Each event has had at most one order, live or on paper. -/
def OrderedOnce (s : Desk) : Prop := (s.sent.map (·.1)).Nodup

/-- Some continuation gives the event a final status. -/
def Movable (s : Desk) (id : Uuid) : Prop :=
  ∃ ops e, (run (step toLowercase toUppercase) s ops).executions.lookup id = some e ∧ e.status.isSome

/-- Every claimed event has a final status or can still get one. -/
def NeverStuck (s : Desk) : Prop :=
  ∀ id e, s.executions.lookup id = some e → Movable toLowercase toUppercase s id

/-- No worker ends with an event in hand, and no status write of one fails. -/
def KeepsEvent (s : Desk) : Op → Prop
  | .crash w => (s.workers w).phase.holds = none
  | .close w false => ∀ p id u rest, s.workers w ≠ .closing p id u rest
  | _ => True

theorem keepsEvent_iff (s : Desk) (op : Op) :
    KeepsEvent s op ↔ ¬ s.claims.Drops (op.onClaims toLowercase toUppercase s) := by
  cases op with
  | list => simp [KeepsEvent, Op.onClaims, ClaimOnce.State.Drops]
  | claim w ok =>
    simp only [KeepsEvent, Op.onClaims, true_iff]
    split <;> exact id
  | execute w a =>
    simp only [KeepsEvent, Op.onClaims, true_iff]
    split <;> exact id
  | crash w => simp [KeepsEvent, Op.onClaims, ClaimOnce.State.Drops, Desk.claims]
  | close w ok =>
    simp only [Op.onClaims]
    cases hw : s.workers w with
    | closing p id u rest =>
      cases ok with
      | true => simp [KeepsEvent, ClaimOnce.State.Drops]
      | false =>
        have hphase : s.claims.worker w = .closing id u.status := claims_worker hw
        simp [KeepsEvent, ClaimOnce.State.Drops, hw, hphase]
    | _ => cases ok <;> simp [KeepsEvent, ClaimOnce.State.Drops, hw]

theorem inv_step (op : Op) (h : s.claims.Inv) : (step toLowercase toUppercase s op).claims.Inv := by
  rw [claims_step toLowercase toUppercase s op h]
  exact h.step _

theorem claims_start : Desk.start.claims.Inv := ClaimOnce.State.inv_start

theorem movable_of_closing {p : Pass} {u : StatusWrite} {rest : List PendingExecutionRow} (h : s.claims.Inv)
    (hw : s.workers w = .closing p id u rest) : Movable toLowercase toUppercase s id := by
  obtain ⟨r, hr, -⟩ := h.held w id (by rw [claims_worker hw]; rfl)
  obtain ⟨e, he, -⟩ := Option.map_eq_some_iff.1 hr
  let e' : Execution := {
    status := some u.status
    clientOrderId := u.clientOrderId <|> e.clientOrderId
    errorMessage := u.errorMessage }
  refine ⟨[.close w true], e', ?_, rfl⟩
  simp only [run_cons, run_nil, step, hw, if_true, Desk.setWorker, updateStatus, lookup_adjust, he, Option.map_some]
  rfl

/-- An event in a worker's hands is two steps from a final status. -/
theorem movable_of_holds (h : s.claims.Inv) (hw : (s.workers w).phase.holds = some id) :
    Movable toLowercase toUppercase s id := by
  cases hat : s.workers w with
  | idle | listed => rw [hat] at hw; cases hw
  | closing p id' u rest =>
    rw [hat] at hw
    obtain rfl := Option.some.inj hw
    exact movable_of_closing toLowercase toUppercase h hat
  | claimed p row rest =>
    rw [hat] at hw
    obtain rfl := Option.some.inj hw
    let a : Answers := ⟨.ok false, .ok (), .ok ⟨0, none⟩, .ok (), .ok 0⟩
    have hclosing : (step toLowercase toUppercase s (.execute w a)).workers w =
        .closing p row.id (executeRow toLowercase toUppercase p row a).2 rest := by
      simp only [step, hat, Desk.setWorker, Function.update_self]
    obtain ⟨ops, e, he, hfinal⟩ := movable_of_closing toLowercase toUppercase (inv_step _ _ _ h) hclosing
    exact ⟨.execute w a :: ops, e, he, hfinal⟩

theorem inv_orphan_step (op : Op) (h : s.claims.Inv ∧ s.claims.Orphan id) :
    (step toLowercase toUppercase s op).claims.Inv ∧ (step toLowercase toUppercase s op).claims.Orphan id := by
  refine ⟨inv_step _ _ op h.1, ?_⟩
  rw [claims_step toLowercase toUppercase s op h.1]
  exact ClaimOnce.State.orphan_step h.2 _

theorem not_movable_of_orphan (h : s.claims.Inv) (ho : s.claims.Orphan id) :
    ¬ Movable toLowercase toUppercase s id := by
  rintro ⟨ops, e, he, hfinal⟩
  have hrun := run_invariant (J := fun s : Desk => s.claims.Inv ∧ s.claims.Orphan id) (K := fun _ => True)
    (fun _ op hs _ => inv_orphan_step toLowercase toUppercase op hs) ⟨h, ho⟩ fun (_ : Op) (_ : _ ∈ ops) => trivial
  obtain ⟨r, hr, rfl⟩ := hrun.2.row
  obtain ⟨e', he', hrow⟩ := Option.map_eq_some_iff.1 hr
  obtain rfl := Option.some.inj (he.symm.trans he')
  obtain ⟨status, hstatus⟩ := Option.isSome_iff_exists.1 hfinal
  rw [Execution.row, hstatus] at hrow
  cases hrow

/-- Nothing is stuck exactly when every open row has a worker. -/
theorem neverStuck_iff (h : s.claims.Inv) :
    NeverStuck toLowercase toUppercase s ↔ ¬ ∃ id, s.claims.Orphan id := by
  constructor
  · rintro hmove ⟨id, ho⟩
    obtain ⟨r, hr, -⟩ := ho.row
    obtain ⟨e, he, -⟩ := Option.map_eq_some_iff.1 hr
    exact not_movable_of_orphan toLowercase toUppercase h ho (hmove id e he)
  · intro hnone id e he
    cases hstatus : e.status with
    | some status => exact ⟨[], e, he, by simp [hstatus]⟩
    | none =>
      by_contra hstuck
      refine hnone ⟨id, ⟨.opened, ?_, rfl⟩, fun w hw => hstuck (movable_of_holds _ _ h hw)⟩
      simp [Desk.claims, he, Execution.row, hstatus]

/-- **Range signals**: in every run each event has at most one order, live or on paper. And every claimed event has a
final status or can still get one, in every state of a run, exactly when no worker ends with an event in hand and no
status write of one fails. -/
theorem range_signals_iff :
    (∀ ops, AllStates (step toLowercase toUppercase) OrderedOnce .start ops) ∧
    ∀ ops, AllStates (step toLowercase toUppercase) (NeverStuck toLowercase toUppercase) .start ops ↔
      AllSteps (step toLowercase toUppercase) KeepsEvent .start ops := by
  constructor
  · intro ops
    have hinv := allStates_of_step (J := fun s : Desk => s.claims.Inv) (fun s op => inv_step toLowercase toUppercase op)
      claims_start ops
    exact hinv.imp fun s h => h.sentOnce
  · intro ops
    apply allStates_iff_allSteps_of_iff (J := fun s : Desk => s.claims.Inv) (K := fun _ => True)
    · exact fun s op h _ => inv_step _ _ op h
    · intro s op h _
      rw [neverStuck_iff _ _ (inv_step _ _ op h), neverStuck_iff _ _ h, claims_step _ _ _ _ h,
        ClaimOnce.State.hasOrphan_step_iff h, not_or, keepsEvent_iff toLowercase toUppercase]
    · exact claims_start
    · exact fun _ _ => trivial
    · exact fun id e he => nomatch he

variable {toLowercase toUppercase}

theorem not_neverStuck_of_crash (h : s.claims.Inv) (hw : (s.workers w).phase.holds = some id) :
    ¬ NeverStuck toLowercase toUppercase (step toLowercase toUppercase s (.crash w)) := by
  rw [neverStuck_iff _ _ (inv_step _ _ _ h), claims_step _ _ _ _ h, ClaimOnce.State.hasOrphan_step_iff h, not_not]
  exact .inr (by simp [Op.onClaims, ClaimOnce.State.Drops, Desk.claims, hw])

/-- The process is restarted when worker 0 has just claimed event 7: the event is `processing` for good. -/
theorem claimed_event_is_stuck :
    ¬ ∀ ops, AllStates (step String.toLower String.toUpper)
      (fun s => OrderedOnce s ∧ NeverStuck String.toLower String.toUpper s) .start ops := by
  intro h
  let pass : Pass := ⟨⟨true, true, some (1, 2), .null⟩, false, true, true, 1 / 1000, 1 / 1000⟩
  let row : PendingExecutionRow := ⟨⟨7, "long_entry", "binance"⟩, "futures", "BTCUSDT", some (some 100)⟩
  obtain ⟨-, -, -, -, hstuck⟩ := h [.list 0 pass [row], .claim 0 true, .crash 0]
  have hholds : ((step String.toLower String.toUpper (step String.toLower String.toUpper .start
      (.list 0 pass [row])) (.claim 0 true)).workers 0).phase.holds = some 7 := rfl
  exact not_neverStuck_of_crash (inv_step _ _ _ (inv_step _ _ _ claims_start)) hholds hstuck

end Qtss.Worker.RangeSignals
