import Qtss.Backtest.Iq.Ladder
/-
# `IqBacktestRunner::run` (`qtss-backtest/src/iq/runner.rs`, `attribution.rs`, `report.rs`)

| here | there |
| --- | --- |
| `OutcomeClass`, `classify` | attribution.rs:26, :129; the class only |
| `RunState`       | `open`, `all_closed` and `bars_processed` of `run`; `accepted` and `dropped` record what the cap let in and turned away |
| `admitTrade`     | the body of the loop over `new_trades` (runner.rs:259-266) |
| `insertCandidates` | runner.rs:239-275 |
| `runBar`, `finish` | runner.rs:211-312, :316-322 |
| `Report`, `aggregate` | the trade counts of report.rs:146 |

A bar comes with whatever the detector answers for it. The path snapshots are not modelled (`IqTrade` has none).
-/

namespace Qtss.Backtest.Iq
open Runs IqLifecycleManager

inductive OutcomeClass where
  | win | loss | scratch | aborted | openAtEnd
deriving DecidableEq, Repr

/-- attribution.rs:129 with `DEFAULT_SCRATCH_PCT`. -/
def classify (t : IqTrade) : OutcomeClass :=
  if t.state = .aborted then .aborted
  else if t.state ≠ .closed then .openAtEnd
  else if |t.netPnlPct| < 5 / 100 then .scratch
  else if t.netPnlPct > 0 then .win
  else .loss

/-- "Count only trades that are actually consuming risk": `Pending`, `Open` and `ScalingOut`. -/
def IqTrade.Live (t : IqTrade) : Prop := t.state = .opened ∨ t.state = .scalingOut ∨ t.state = .pending

instance (t : IqTrade) : Decidable t.Live := inferInstanceAs (Decidable (_ ∨ _ ∨ _))

def liveCount (ts : List IqTrade) : ℕ := ts.countP fun t => decide t.Live

structure IqBacktestRunner where
  manager : IqLifecycleManager
  maxConcurrentTrades : ℕ

/-- A bar and the candidates the detector returns at it. -/
abbrev Tape := List (Bar × List IqTrade)

structure RunState where
  openTrades : List IqTrade
  allClosed : List (IqTrade × OutcomeClass)
  barsProcessed : ℕ
  accepted : List IqTrade
  dropped : List IqTrade

def RunState.start : RunState := ⟨[], [], 0, [], []⟩

/-! ## A bar -/

/-- What the loop over the candidates has let in and turned away. -/
structure Admission where
  accepted : List IqTrade
  dropped : List IqTrade

def admitTrade (cap headroom : ℕ) (a : Admission) (t : IqTrade) : Admission :=
  if cap > 0 ∧ a.accepted.length ≥ headroom then { a with dropped := a.dropped ++ [t] }
  else { a with accepted := a.accepted ++ [t] }

/-- runner.rs:239-275. -/
def insertCandidates (cap live : ℕ) (newTrades : List IqTrade) : Admission :=
  if cap = 0 ∨ live < cap then
    let headroom := cap - live
    newTrades.foldl (admitTrade cap headroom) ⟨[], []⟩
  else ⟨[], newTrades⟩

/-- One row of the tape. -/
def runBar (r : IqBacktestRunner) (s : RunState) (row : Bar × List IqTrade) : RunState :=
  let (closedThisBar, openTrades) := r.manager.onBar row.1 s.openTrades
  let a := insertCandidates r.maxConcurrentTrades (liveCount openTrades) row.2
  { openTrades := openTrades ++ a.accepted
    allClosed := s.allClosed ++ closedThisBar.map fun t => (t, classify t)
    barsProcessed := s.barsProcessed + 1
    accepted := s.accepted ++ a.accepted
    dropped := s.dropped ++ a.dropped }

/-- "Anything left open at end-of-window gets recorded too." -/
def finish (s : RunState) : List (IqTrade × OutcomeClass) :=
  s.allClosed ++ s.openTrades.map fun t => (t, classify t)

structure Report where
  totalTrades : ℕ
  wins : ℕ
  losses : ℕ
  scratches : ℕ
  aborted : ℕ
  openAtEnd : ℕ
deriving DecidableEq

def Report.seed : Report := ⟨0, 0, 0, 0, 0, 0⟩

def Report.count (report : Report) (row : IqTrade × OutcomeClass) : Report :=
  let report := { report with totalTrades := report.totalTrades + 1 }
  match row.2 with
  | .win => { report with wins := report.wins + 1 }
  | .loss => { report with losses := report.losses + 1 }
  | .scratch => { report with scratches := report.scratches + 1 }
  | .aborted => { report with aborted := report.aborted + 1 }
  | .openAtEnd => { report with openAtEnd := report.openAtEnd + 1 }

def aggregate (trades : List (IqTrade × OutcomeClass)) : Report := trades.foldl Report.count .seed

/-- runner.rs:147, once the bars are there: the rows of the trade log, and the counts. -/
def IqBacktestRunner.run (r : IqBacktestRunner) (tape : Tape) : List (IqTrade × OutcomeClass) × Report :=
  let rows := finish (Runs.run (runBar r) .start tape)
  (rows, aggregate rows)

/-! ## The cap -/

section cap
variable {m : IqLifecycleManager} {bar : Bar} {t t' : IqTrade} {ts : List IqTrade} {cap headroom live : ℕ}
  {a : Admission}

theorem admit_foldl_length (hcap : 0 < cap) (h : a.accepted.length ≤ headroom) (ts : List IqTrade) :
    (ts.foldl (admitTrade cap headroom) a).accepted.length ≤ headroom := by
  induction ts generalizing a with
  | nil => exact h
  | cons t ts ih =>
    refine ih ?_
    unfold admitTrade
    split
    · exact h
    · rename_i hroom
      rw [not_and, not_le] at hroom
      rw [List.length_append, List.length_singleton]
      exact hroom hcap

/-- Without a cap nothing is turned away. -/
theorem insertCandidates_zero (ts : List IqTrade) : insertCandidates 0 live ts = ⟨ts, []⟩ := by
  have hfold : ∀ (ts : List IqTrade) (a : Admission),
      ts.foldl (admitTrade 0 (0 - live)) a = ⟨a.accepted ++ ts, a.dropped⟩ := by
    intro ts
    induction ts with
    | nil => intro a; rw [List.append_nil]; rfl
    | cons t ts ih => intro a; rw [List.foldl_cons, ih]; simp [admitTrade]
  rw [insertCandidates, if_pos (.inl rfl), hfold]
  rfl

/-- The headroom is what the cap leaves. -/
theorem insertCandidates_le (hcap : 0 < cap) (hlive : live ≤ cap) (ts : List IqTrade) :
    live + (insertCandidates cap live ts).accepted.length ≤ cap := by
  unfold insertCandidates
  split
  · have hroom := @admit_foldl_length cap (cap - live) ⟨[], []⟩ hcap (Nat.zero_le _) ts
    simp only
    omega
  · exact hlive

/-- A trade that is kept was live. -/
theorem live_of_kept (h : m.onTrade bar t = .keep t') : t.Live := by
  by_cases ha : t.Active
  · exact ha.elim .inl fun hs => .inr (.inl hs)
  · rw [onTrade, if_pos ha] at h
    split at h
    · cases h
    · rename_i hends
      cases hs : t.state <;> simp_all [IqTrade.Active, IqTrade.Live]

theorem kept_length_le (m : IqLifecycleManager) (bar : Bar) (ts : List IqTrade) :
    (m.onBar bar ts).2.length ≤ liveCount ts := by
  rw [onBar_eq]
  show (ts.filterMap fun t => (m.onTrade bar t).asKept).length ≤ liveCount ts
  induction ts with
  | nil => rfl
  | cons t ts ih =>
    rw [liveCount, List.countP_cons]
    cases h : m.onTrade bar t with
    | closed t' =>
      rw [List.filterMap_cons_none (by rw [h]; rfl)]
      exact ih.trans (Nat.le_add_right _ _)
    | keep t' =>
      rw [List.filterMap_cons_some (by rw [h]; rfl), if_pos (decide_eq_true (live_of_kept h))]
      exact Nat.succ_le_succ ih

end cap

/-! ## The rows -/

section rows
variable {m : IqLifecycleManager} {r : IqBacktestRunner} {s : RunState} {bar : Bar} {t : IqTrade}

theorem finalize_tradeId {exitBar : ℕ} {exitTime : DateTime} {price : ℚ} {outcome : TradeOutcome} :
    (finalize t exitBar exitTime price outcome).tradeId = t.tradeId := by
  unfold finalize
  split <;> rfl

theorem laddered_tradeId : (laddered m bar t).tradeId = t.tradeId := by
  have hfold : ∀ (l : List ℕ) (t : IqTrade), (l.foldl (hit m bar) t).tradeId = t.tradeId := by
    intro l
    induction l with
    | nil => exact fun _ => rfl
    | cons i l ih => exact fun t => ih (hit m bar t i)
  exact hfold _ _

/-- A bar leaves a trade its id. -/
theorem step_tradeId : (step m t bar).tradeId = t.tradeId := by
  by_cases ha : t.Active
  · obtain ⟨filled, -, honTrade⟩ := @onTrade_active m bar t ha
    have hsettle := @settle_rec m bar (laddered m bar t) (·.tradeId = t.tradeId) (·.tradeId = t.tradeId)
      t.long (decide (stopTouched bar t)) filled laddered_tradeId
      (fun t' mult h => by rw [tighten_eq]; exact h) (fun _ _ _ h _ _ => h) (fun _ h => h)
      fun _ _ _ h => finalize_tradeId.trans h
    rw [step, honTrade]
    rcases hsettle with ⟨t', hs, hid, -⟩ | ⟨t', hs, hid, -⟩ <;> rw [hs] <;> exact hid
  · rw [step_inactive ha]

/-- Closed now or kept, the trades of a bar are those it was given. -/
theorem onBar_ids (m : IqLifecycleManager) (bar : Bar) (ts : List IqTrade) :
    ((m.onBar bar ts).1.map (·.tradeId) ++ (m.onBar bar ts).2.map (·.tradeId)).Perm (ts.map (·.tradeId)) := by
  have h := (onBar_perm m bar ts).map (·.tradeId)
  rw [List.map_append, List.map_map] at h
  rwa [show ((·.tradeId) ∘ fun t => step m t bar) = (·.tradeId) from funext fun _ => step_tradeId] at h

/-- What would be reported if the window ended here, by id. -/
def reportedIds (s : RunState) : List Uuid := (finish s).map (·.1.tradeId)

theorem reportedIds_eq (s : RunState) :
    reportedIds s = s.allClosed.map (·.1.tradeId) ++ s.openTrades.map (·.tradeId) := by
  rw [reportedIds, finish, List.map_append, List.map_map]
  rfl

/-- Every accepted trade is reported, and as often as it was accepted. -/
def Accounted (s : RunState) : Prop := (reportedIds s).Perm (s.accepted.map (·.tradeId))

theorem accounted_runBar (h : Accounted s) (row : Bar × List IqTrade) : Accounted (runBar r s row) := by
  unfold Accounted at h ⊢
  rw [reportedIds_eq] at h ⊢
  simp only [runBar, List.map_append, List.map_map]
  rw [← List.append_assoc]
  refine List.Perm.append_right _ (.trans ?_ h)
  rw [List.append_assoc]
  exact .append_left _ (onBar_ids r.manager row.1 s.openTrades)

theorem aggregate_foldl (rows : List (IqTrade × OutcomeClass)) (report : Report)
    (h : report.totalTrades =
      report.wins + report.losses + report.scratches + report.aborted + report.openAtEnd) :
    (rows.foldl Report.count report).totalTrades = report.totalTrades + rows.length
      ∧ (rows.foldl Report.count report).totalTrades = (rows.foldl Report.count report).wins
        + (rows.foldl Report.count report).losses + (rows.foldl Report.count report).scratches
        + (rows.foldl Report.count report).aborted + (rows.foldl Report.count report).openAtEnd := by
  induction rows generalizing report with
  | nil => exact ⟨rfl, h⟩
  | cons row rows ih =>
    have hrow : (report.count row).totalTrades = report.totalTrades + 1 ∧ (report.count row).totalTrades =
        (report.count row).wins + (report.count row).losses + (report.count row).scratches
          + (report.count row).aborted + (report.count row).openAtEnd := by
      unfold Report.count
      cases row.2 <;> refine ⟨rfl, ?_⟩ <;> simp only <;> omega
    obtain ⟨htotal, hsum⟩ := ih (report.count row) hrow.2
    rw [List.foldl_cons, List.length_cons]
    exact ⟨by omega, hsum⟩

end rows

/-! ## A run -/

section run
variable {r : IqBacktestRunner} {s : RunState}

/-- One bar keeps to the cap. -/
theorem liveCount_runBar (hcap : 0 < r.maxConcurrentTrades) (h : liveCount s.openTrades ≤ r.maxConcurrentTrades)
    (row : Bar × List IqTrade) : liveCount (runBar r s row).openTrades ≤ r.maxConcurrentTrades := by
  have hkept := kept_length_le r.manager row.1 s.openTrades
  have hlive : liveCount (r.manager.onBar row.1 s.openTrades).2 ≤ _ := List.countP_le_length
  have hroom := insertCandidates_le hcap ((hlive.trans hkept).trans h) row.2
  have hnew : liveCount (insertCandidates r.maxConcurrentTrades
      (liveCount (r.manager.onBar row.1 s.openTrades).2) row.2).accepted ≤ _ := List.countP_le_length
  simp only [runBar]
  rw [liveCount, List.countP_append]
  exact (Nat.add_le_add_left hnew _).trans hroom

/-- What the runner owes a tape. -/
structure RunnerSound (r : IqBacktestRunner) (tape : Tape) : Prop where
  /-- After every bar the live trades are within the cap, -/
  capped : 0 < r.maxConcurrentTrades →
    AllStates (runBar r) (fun s => liveCount s.openTrades ≤ r.maxConcurrentTrades) .start tape
  /-- the log has a row for every accepted trade, once, -/
  reported : ((r.run tape).1.map (·.1.tradeId)).Perm
    ((Runs.run (runBar r) .start tape).accepted.map (·.tradeId))
  /-- each counted in one class, -/
  counted : (r.run tape).2.totalTrades = (Runs.run (runBar r) .start tape).accepted.length
    ∧ (r.run tape).2.totalTrades = (r.run tape).2.wins + (r.run tape).2.losses + (r.run tape).2.scratches
      + (r.run tape).2.aborted + (r.run tape).2.openAtEnd
  /-- and without a cap every candidate is accepted. -/
  uncapped : r.maxConcurrentTrades = 0 →
    (Runs.run (runBar r) .start tape).accepted = tape.flatMap (·.2)
      ∧ (Runs.run (runBar r) .start tape).dropped = []

theorem accounted_run (r : IqBacktestRunner) (tape : Tape) : Accounted (Runs.run (runBar r) .start tape) :=
  run_invariant (J := Accounted) (K := fun _ => True) (fun _ row h _ => accounted_runBar h row)
    (List.Perm.refl _) fun _ _ => trivial

theorem run_uncapped (h : r.maxConcurrentTrades = 0) (tape : Tape) (s : RunState) :
    (Runs.run (runBar r) s tape).accepted = s.accepted ++ tape.flatMap (·.2)
      ∧ (Runs.run (runBar r) s tape).dropped = s.dropped := by
  induction tape generalizing s with
  | nil => exact ⟨(List.append_nil _).symm, rfl⟩
  | cons row tape ih =>
    obtain ⟨haccepted, hdropped⟩ := ih (runBar r s row)
    rw [run_cons, haccepted, hdropped, List.flatMap_cons]
    simp only [runBar, h, insertCandidates_zero, List.append_nil, List.append_assoc, and_self]

/-- **The runner**, for every manager, cap and tape. -/
theorem runner_sound (r : IqBacktestRunner) (tape : Tape) : RunnerSound r tape where
  capped hcap := allStates_of_step (fun _ row h => liveCount_runBar hcap h row) (Nat.zero_le _) tape
  reported := accounted_run r tape
  counted := by
    obtain ⟨htotal, hsum⟩ := aggregate_foldl (finish (Runs.run (runBar r) .start tape)) .seed rfl
    refine ⟨?_, hsum⟩
    have hlength := (accounted_run r tape).length_eq
    rw [reportedIds, List.length_map, List.length_map] at hlength
    rw [← hlength]
    exact htotal.trans (Nat.zero_add _)
  uncapped h := run_uncapped h tape .start

end run

end Qtss.Backtest.Iq
