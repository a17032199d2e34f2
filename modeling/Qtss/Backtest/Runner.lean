import Qtss.Execution.Router
import Qtss.Portfolio.Engine
/-
# Historical replay (`qtss-backtest/src/v2.rs`)

| here | there |
| --- | --- |
| `BacktestRunner`, `BacktestSummary` | v2.rs:81, :91 |
| `BacktestRunner.new`     | `BacktestRunner::new` (:100); its mode check is the field `backtest` |
| `BacktestRunner.run`     | `BacktestRunner::run` (:140): bars, their signals, the intents of a signal |
| `BacktestRunner.step`    | what the three loops do between two calls of outside code |
| `absorb`                 | `absorb` (:207): the entry fills go into the portfolio |

The strategy, the signal source, the risk approver and the adapters are outside code with states of
their own: each answer is an arbitrary function of the number of steps made so far (for an adapter,
of the journal). A run is a sequence of steps (`run_eq_steps`), so what one step does to the books
settles what a run does: an approved intent whose entry is accepted and one of whose exits is refused
leaves the venue with a position the portfolio does not have (`acks_reach_portfolio_iff`).
-/

namespace Qtss.Backtest
open Runs Keyed Portfolio Execution

inductive RuntimeError where
  | notAllowed (op : String) (mode : ExecutionMode)
  | invalidConfig (detail : String)
deriving DecidableEq, Repr

structure Bar where
  instrument : Instrument
  openTime : DateTime
  close : ℚ
deriving DecidableEq

structure BacktestSummary where
  barsProcessed : Nat
  intentsEmitted : Nat
  intentsApproved : Nat
  ordersFilled : Nat
  finalEquity : ℚ
  peakEquity : ℚ
deriving DecidableEq

/-- `δ` is the `ValidatedDetection` only strategies look into. -/
structure BacktestRunner (δ : Type) where
  mode : ExecutionMode
  backtest : mode = .backtest
  strategy : Nat → δ → ExecutionMode → Except String (List TradeIntent)
  router : ExecutionRouter
  portfolio : PortfolioEngine
  risk : Nat → TradeIntent → Option ApprovedIntent
  newV4 : Nat → Nat → Uuid

/-- What a run does between two calls of outside code. -/
inductive Event where
  | bar (b : Bar)
  | signal (emitted : Nat)
  | rejected
  | approved (a : ApprovedIntent)
deriving DecidableEq

structure State where
  portfolio : PortfolioEngine
  journal : Journal
  summary : BacktestSummary
  /-- The steps so far. -/
  trace : List Event
  /-- The calls into the portfolio so far. -/
  calls : List Op

namespace State

def start (portfolio : PortfolioEngine) : State :=
  ⟨portfolio, [], ⟨0, 0, 0, 0, 0, 0⟩, [], []⟩

/-- A call into the portfolio. -/
def call (s : State) (op : Op) : State :=
  { s with portfolio := s.portfolio.step op, calls := s.calls ++ [op] }

end State

/-- The portfolio call for one fill of an entry. -/
def fillOp (symbol : String) (side : Side) (f : Execution.Fill) : Op :=
  .fill symbol ⟨side, f.quantity, f.price, f.fee⟩

/-- v2.rs:207: "The bracket's entry leg drives the position; stop / TPs are resting orders that
don't fill in this loop." -/
def absorb (s : State) (approved : ApprovedIntent) (acks : RoutedAcks) : State :=
  acks.entry.fills.foldl
    (fun s f => s.call (fillOp approved.intent.instrument.symbol approved.intent.side f)) s

namespace BacktestRunner
variable {δ : Type}

/-- v2.rs:100. -/
def new (mode : ExecutionMode) (config : PortfolioConfig) (now : DateTime)
    (strategy : Nat → δ → ExecutionMode → Except String (List TradeIntent))
    (router : ExecutionRouter) (risk : Nat → TradeIntent → Option ApprovedIntent)
    (newV4 : Nat → Nat → Uuid) : Except RuntimeError (BacktestRunner δ) :=
  if h : mode = .backtest then
    .ok ⟨mode, h, strategy, router, .new config now, risk, newV4⟩
  else .error (.notAllowed "backtest_run" mode)

variable (R : BacktestRunner δ)

/-- The outcome of routing an approved intent (:180-194). -/
def execute (s : State) (a : ApprovedIntent) : State :=
  match R.router.route (R.newV4 s.trace.length) s.journal a with
  | (.ok acks, j) =>
    let s := absorb { s with journal := j } a acks
    { s with summary := { s.summary with ordersFilled := s.summary.ordersFilled + 1 } }
  | (.error _, j) => { s with journal := j }

def step (s : State) (ev : Event) : State :=
  let s' := match ev with
    | .bar b =>
      let s := s.call (.mark b.instrument.symbol b.close)
      { s with summary := { s.summary with barsProcessed := s.summary.barsProcessed + 1 } }
    | .signal emitted =>
      { s with
        summary := { s.summary with intentsEmitted := s.summary.intentsEmitted + emitted } }
    | .rejected => s
    | .approved a =>
      execute R { s with
        summary := { s.summary with intentsApproved := s.summary.intentsApproved + 1 } } a
  { s' with trace := s.trace ++ [ev] }

def onIntent (s : State) (intent : TradeIntent) : State :=
  match R.risk s.trace.length intent with
  | none => R.step s .rejected
  | some a => R.step s (.approved a)

/-- One signal (:167-196); a strategy error ends the run. -/
def onSignal (s : State) (sig : δ) : Except RuntimeError Unit × State :=
  match R.strategy s.trace.length sig R.mode with
  | .error e => (.error (.invalidConfig e), s)
  | .ok intents => (.ok (), intents.foldl R.onIntent (R.step s (.signal intents.length)))

def onSignals (s : State) : List δ → Except RuntimeError Unit × State
  | [] => (.ok (), s)
  | sig :: sigs =>
    match R.onSignal s sig with
    | (.error e, s) => (.error e, s)
    | (.ok (), s) => onSignals s sigs

def onBars (signalsAt : Nat → DateTime → List δ) (s : State) :
    List Bar → Except RuntimeError Unit × State
  | [] => (.ok (), s)
  | b :: bars =>
    let s := R.step s (.bar b)
    match R.onSignals s (signalsAt s.trace.length b.openTime) with
    | (.error e, s) => (.error e, s)
    | (.ok (), s) => onBars signalsAt s bars

/-- v2.rs:140. -/
def run (bars : List Bar) (signalsAt : Nat → DateTime → List δ) :
    Except RuntimeError BacktestSummary × State :=
  match R.onBars signalsAt (.start R.portfolio) bars with
  | (.error e, s) => (.error e, s)
  | (.ok (), s) =>
    let snap := s.portfolio.snapshot
    (.ok { s.summary with finalEquity := snap.equity, peakEquity := snap.peakEquity }, s)

/-! ## A run is a sequence of steps -/

/-- `s'` is reached from `s` by steps. -/
def Steps (s s' : State) : Prop := ∃ evs, s' = Runs.run R.step s evs

variable {R} {s s' s'' : State}

theorem Steps.refl : Steps R s s := ⟨[], rfl⟩

theorem Steps.trans (h : Steps R s s') (h' : Steps R s' s'') : Steps R s s'' := by
  obtain ⟨evs, rfl⟩ := h
  obtain ⟨evs', rfl⟩ := h'
  exact ⟨evs ++ evs', (List.foldl_append ..).symm⟩

theorem steps_step (ev : Event) : Steps R s (R.step s ev) := ⟨[ev], rfl⟩

theorem steps_onIntent (s : State) (intent : TradeIntent) : Steps R s (R.onIntent s intent) := by
  unfold onIntent
  split <;> exact steps_step _

theorem steps_intents (intents : List TradeIntent) (s : State) :
    Steps R s (intents.foldl R.onIntent s) := by
  induction intents generalizing s with
  | nil => exact .refl
  | cons intent intents ih => exact (steps_onIntent s intent).trans (ih _)

theorem steps_onSignal (s : State) (sig : δ) : Steps R s (R.onSignal s sig).2 := by
  unfold onSignal
  split
  · exact .refl
  · exact (steps_step _).trans (steps_intents _ _)

theorem steps_onSignals (sigs : List δ) (s : State) : Steps R s (R.onSignals s sigs).2 := by
  induction sigs generalizing s with
  | nil => exact .refl
  | cons sig sigs ih =>
    have hsig := steps_onSignal (R := R) s sig
    unfold onSignals
    split
    · rename_i h
      rwa [h] at hsig
    · rename_i h
      rw [h] at hsig
      exact hsig.trans (ih _)

theorem steps_onBars (signalsAt : Nat → DateTime → List δ) (bars : List Bar) (s : State) :
    Steps R s (R.onBars signalsAt s bars).2 := by
  induction bars generalizing s with
  | nil => exact .refl
  | cons b bars ih =>
    have hbar := (steps_step (R := R) (s := s) (.bar b)).trans
      (steps_onSignals (signalsAt (R.step s (.bar b)).trace.length b.openTime) _)
    simp only [onBars]
    split
    · rename_i h
      rwa [h] at hbar
    · rename_i h
      rw [h] at hbar
      exact hbar.trans (ih _)

theorem trace_run (evs : List Event) (s : State) :
    (Runs.run R.step s evs).trace = s.trace ++ evs := by
  induction evs generalizing s with
  | nil => simp
  | cons ev evs ih =>
    rw [run_cons, ih]
    simp [step]

/-- **A run is the sequence of steps its trace records.** -/
theorem run_eq_steps (R : BacktestRunner δ) (bars : List Bar)
    (signalsAt : Nat → DateTime → List δ) :
    (R.run bars signalsAt).2 =
      Runs.run R.step (.start R.portfolio) (R.run bars signalsAt).2.trace := by
  have hrun : (R.run bars signalsAt).2 = (R.onBars signalsAt (.start R.portfolio) bars).2 := by
    unfold run
    split <;> rename_i h <;> rw [h]
  obtain ⟨evs, hevs⟩ := steps_onBars (R := R) signalsAt bars (.start R.portfolio)
  rw [hrun, hevs, trace_run]
  rfl

end BacktestRunner

/-! ## The portfolio against the venue -/

/-- The portfolio calls for the fills of every entry that was acknowledged. -/
def entryOps (j : Journal) : List Op :=
  j.flatMap fun (req, reply) =>
    match reply with
    | .ok ack => if req.reduceOnly then [] else ack.fills.map (fillOp req.instrument.symbol req.side)
    | .error _ => []

def isFill : Op → Bool
  | .fill _ _ => true
  | .mark _ _ | .markAll _ => false

/-- The portfolio is what the calls so far made of `p`, and the fills among them are those of the
acknowledged entries, in order. -/
def Credited (p : PortfolioEngine) (s : State) : Prop :=
  s.portfolio = Runs.run PortfolioEngine.step p s.calls ∧
    s.calls.filter isFill = entryOps s.journal

section journal
variable {r : ExecutionRouter} {newV4 : Nat → Uuid} {j : Journal} {approved : ApprovedIntent}
  {bracket : OrderBracket} {a : ExecutionAdapter} {req : OrderRequest}

@[simp] theorem entryOps_snoc (j : Journal) (req : OrderRequest) (reply : Reply) :
    entryOps (j ++ [(req, reply)]) = entryOps j ++ entryOps [(req, reply)] :=
  List.flatMap_append

/-- Exits leave the entries of the journal alone. -/
theorem entryOps_exits (a : ExecutionAdapter) (reqs : List OrderRequest) (j : Journal)
    (h : ∀ req ∈ reqs, req.reduceOnly = true) :
    entryOps (placeAll a j reqs).2 = entryOps j := by
  induction reqs generalizing j with
  | nil => rfl
  | cons req reqs ih =>
    obtain ⟨hreq, hreqs⟩ := List.forall_mem_cons.1 h
    cases hr : a.place j req with
    | error e =>
      rw [placeAll_cons_error hr]
      simp [entryOps]
    | ok ack =>
      rw [placeAll_cons_ok hr, ih _ hreqs, entryOps_snoc]
      simp [entryOps, hreq]

/-- The portfolio calls `absorb` makes of what `route` returned. -/
def absorbed (approved : ApprovedIntent) : Except ExecutionError RoutedAcks → List Op
  | .ok acks =>
    acks.entry.fills.map (fillOp approved.intent.instrument.symbol approved.intent.side)
  | .error _ => []

theorem absorbed_of_delivered_nil {result : Except ExecutionError RoutedAcks}
    (h : delivered result = []) : absorbed approved result = [] := by
  cases result with
  | error e => rfl
  | ok acks => cases h

theorem absorbed_of_delivered_cons {result : Except ExecutionError RoutedAcks} {ack : OrderAck}
    {rest : List OrderAck} (h : delivered result = ack :: rest) :
    absorbed approved result =
      ack.fills.map (fillOp approved.intent.instrument.symbol approved.intent.side) := by
  cases result with
  | error e => cases h
  | ok acks =>
    obtain ⟨rfl, -⟩ := List.cons.inj h
    rfl

/-- Where `route` settles, the acknowledged entry fills it adds to the journal are the ones it hands
over. -/
theorem entryOps_route (h : Settles r newV4 j approved) :
    entryOps (r.route newV4 j approved).2 =
      entryOps j ++ absorbed approved (r.route newV4 j approved).1 := by
  cases hsplit : splitIntent newV4 approved with
  | error e => simp [route_of_split_error hsplit, absorbed]
  | ok bracket =>
    cases hl : r.adapters.lookup approved.intent.mode with
    | none => simp [route_of_no_adapter hsplit hl, absorbed]
    | some adapter =>
      obtain ⟨hentry, hside, hinst, hexits⟩ := splitIntent_ok hsplit
      obtain ⟨hj, hd⟩ := route_eq_placeAll (j := j) hsplit hl
      rw [hj]
      cases he : adapter.place j bracket.entry with
      | error e =>
        rw [OrderBracket.legs, placeAll_cons_error he] at hd ⊢
        rw [absorbed_of_delivered_nil hd]
        simp [entryOps]
      | ok ack =>
        have hall : AllAcked adapter j bracket.legs :=
          (h bracket hsplit adapter hl).resolve_left (by simp [he])
        rw [OrderBracket.legs, allAcked_cons_ok he] at hall
        obtain ⟨acks, -, ⟨hok, -⟩ | ⟨-, hno⟩⟩ :=
          placeAll_acked adapter bracket.exits (j ++ [(bracket.entry, .ok ack)])
        · rw [OrderBracket.legs, placeAll_cons_ok he, hok] at hd
          rw [OrderBracket.legs, placeAll_cons_ok he, absorbed_of_delivered_cons hd,
            entryOps_exits adapter bracket.exits _ hexits, entryOps_snoc]
          simp [entryOps, hentry, hside, hinst]
        · exact absurd hall hno

end journal

section steps
variable {δ : Type} {R : BacktestRunner δ} {p : PortfolioEngine} {s : State}

theorem filter_entry_fills (symbol : String) (side : Side) (fills : List Execution.Fill) :
    (fills.map (fillOp symbol side)).filter isFill = fills.map (fillOp symbol side) :=
  List.filter_eq_self.2 (by simp [fillOp, isFill])

/-- A list of calls into the portfolio. -/
theorem foldl_call (ops : List Op) (s : State) :
    ops.foldl State.call s =
      { s with
        portfolio := Runs.run PortfolioEngine.step s.portfolio ops
        calls := s.calls ++ ops } := by
  induction ops generalizing s with
  | nil => simp
  | cons op ops ih =>
    rw [List.foldl_cons, ih]
    simp [State.call]

theorem absorb_eq (s : State) (approved : ApprovedIntent) (acks : RoutedAcks) :
    absorb s approved acks = (absorbed approved (.ok acks)).foldl State.call s := by
  rw [absorb, absorbed, List.foldl_map]

/-- Calls that keep pace with the journal keep the books credited. -/
theorem Credited.calls (h : Credited p s) (j : Journal) (ops : List Op)
    (hj : entryOps j = entryOps s.journal ++ ops.filter isFill) :
    Credited p { s with
      journal := j
      portfolio := Runs.run PortfolioEngine.step s.portfolio ops
      calls := s.calls ++ ops } := by
  obtain ⟨hp, hc⟩ := h
  refine ⟨?_, ?_⟩
  · rw [hp]
    exact (List.foldl_append ..).symm
  · rw [List.filter_append, hc]
    exact hj.symm

/-- The step condition: an approved intent settles. -/
def SettlesAt (R : BacktestRunner δ) (s : State) (ev : Event) : Prop :=
  ∀ a, ev = .approved a → Settles R.router (R.newV4 s.trace.length) s.journal a

/-- Every ack of the step reaches the runner. -/
def DeliversAt (R : BacktestRunner δ) (s : State) (ev : Event) : Prop :=
  ∀ a, ev = .approved a → Delivers R.router (R.newV4 s.trace.length) s.journal a

theorem credited_execute {a : ApprovedIntent} (h : Credited p s)
    (hs : Settles R.router (R.newV4 s.trace.length) s.journal a) :
    Credited p (R.execute s a) := by
  have hops := entryOps_route hs
  unfold BacktestRunner.execute
  generalize R.router.route (R.newV4 s.trace.length) s.journal a = out at hops
  obtain ⟨e | acks, j⟩ := out
  · exact ⟨h.1, by simpa [absorbed, h.2] using hops.symm⟩
  · simp only [absorb_eq, foldl_call]
    exact h.calls j _ (by rw [hops, absorbed, filter_entry_fills])

theorem credited_step {ev : Event} (h : Credited p s) (hs : SettlesAt R s ev) :
    Credited p (R.step s ev) := by
  cases ev with
  | bar b => exact h.calls s.journal [.mark b.instrument.symbol b.close] (by simp [isFill])
  | signal emitted => exact h
  | rejected => exact h
  | approved a =>
    exact credited_execute (s := { s with summary := { s.summary with
      intentsApproved := s.summary.intentsApproved + 1 } }) h (hs a rfl)

end steps

/-- **`acks_reach_portfolio_iff`**: `route` hands over every ack, and along every run the portfolio
is what the marks and exactly the acknowledged entry fills make of it, exactly when no approved
intent gets its entry accepted and an exit refused. -/
theorem acks_reach_portfolio_iff {δ : Type} (R : BacktestRunner δ) (bars : List Bar)
    (signalsAt : Nat → DateTime → List δ) :
    (∀ r newV4 j approved, Delivers r newV4 j approved ↔ Settles r newV4 j approved) ∧
    let start := State.start R.portfolio
    let trace := (R.run bars signalsAt).2.trace
    (R.run bars signalsAt).2 = Runs.run R.step start trace ∧
      (AllSteps R.step (DeliversAt R) start trace ∧
          AllStates R.step (Credited R.portfolio) start trace ↔
        AllSteps R.step (SettlesAt R) start trace) := by
  refine ⟨route_delivers_iff, R.run_eq_steps bars signalsAt, ?_⟩
  have hsteps : DeliversAt R = SettlesAt R := by
    funext s ev
    exact propext (forall₂_congr fun _ _ => route_delivers_iff ..)
  have hstart : Credited R.portfolio (State.start R.portfolio) := ⟨rfl, rfl⟩
  rw [hsteps]
  refine and_iff_left_of_imp (allStates_of_allSteps (fun s ev h _ hs => ?_) hstart fun _ _ => trivial)
  exact credited_step h hs

/-- A venue that accepts the entry, filled at 100, and refuses the stop. -/
def stopRefusing : ExecutionRouter :=
  ExecutionRouter.new.register .backtest
    ⟨fun _ req =>
      if req.reduceOnly then .error (.adapter "stop price out of range")
      else .ok ⟨req.clientOrderId, "1", .filled, 0, [⟨9, req.clientOrderId, 100, req.quantity, 0, 0⟩]⟩⟩

def approvedLong : ApprovedIntent :=
  ⟨1, 0, ⟨2, ⟨"BTCUSDT"⟩, .long, .kelly, some 100, 95, [], .gtc, .backtest⟩, 1, 100, [], []⟩

/-- One bar with one signal whose intent is routed through `stopRefusing`. -/
def strandedRunner : BacktestRunner Unit :=
  ⟨.backtest, rfl, fun _ _ _ => .ok [approvedLong.intent], stopRefusing, .new ⟨1000⟩ 0,
    fun _ _ => some approvedLong, fun n k => 10 * n + k⟩

/-- `route` reports the refused stop, the acknowledged entry is lost: after the run the venue holds
one unit long and the portfolio nothing. -/
theorem entry_fill_lost :
    let j := (stopRefusing.route id [] approvedLong).2
    (stopRefusing.route id [] approvedLong).1 = .error (.adapter "stop price out of range") ∧
      (acked j).length = 1 ∧ ¬ Delivers stopRefusing id [] approvedLong ∧
    let s := (strandedRunner.run [⟨⟨"BTCUSDT"⟩, 0, 100⟩] fun _ _ => [()]).2
    entryOps s.journal = [.fill "BTCUSDT" ⟨.long, 1, 100, 0⟩] ∧
      s.portfolio.positions.lookup "BTCUSDT" = none := by
  refine ⟨by decide +kernel, by decide +kernel, by unfold Delivers; decide +kernel, rfl, ?_⟩
  decide +kernel

end Qtss.Backtest
