import Mathlib.Tactic.Linarith
import Qtss.Risk.State
/-
# Pre-trade checks (`qtss-risk/src/checks.rs`)

| here | there |
| --- | --- |
| `RiskCheck`     | the trait `RiskCheck` (checks.rs:12): a name and `evaluate` |
| `KillSwitchCheck`, `DrawdownCheck`, `DailyLossCheck`, `MaxOpenPositionsCheck`, `LeverageCheck`, `StopDistanceCheck` | the six implementations (:27-189) |
| `defaultChecks` | the built-in set in the order of `lib.rs:16-21` |
| `runChecks`     | the first loop of `RiskEngine::approve` (engine.rs:52-55) |

Four of the checks compare one figure of the account with one cap of the configuration; they are
`capCheck` with their own figure, cap and rejection. Each of the six is monotone in the health of
the account (`NoHealthier`) with one exception: `day_loss_pct` falls back to zero once equity is
not positive, so `DailyLossCheck` is monotone only between accounts with positive equity
(`check_mono`).
-/

namespace Qtss.Risk

structure RiskCheck where
  name : String
  evaluate : TradeIntent → AccountState → RiskConfig → Except RiskRejection Unit

/-- checks.rs:27. -/
def KillSwitchCheck : RiskCheck where
  name := "kill_switch"
  evaluate _ state cfg :=
    if state.killSwitchManual then .error (.killSwitchActive [.lit "manual"])
    else if state.drawdown ≥ cfg.killswitchDrawdown then
      .error (.killSwitchActive
        [.lit "drawdown ", .dec state.drawdown, .lit " >= killswitch ", .dec cfg.killswitchDrawdown])
    else .ok ()

/-- A check that rejects when `breach` holds. -/
def capCheck (name : String) (breach : AccountState → RiskConfig → Prop)
    [∀ s c, Decidable (breach s c)] (reject : AccountState → RiskConfig → RiskRejection) :
    RiskCheck where
  name := name
  evaluate _ state cfg := if breach state cfg then .error (reject state cfg) else .ok ()

/-- checks.rs:59. -/
def DrawdownCheck : RiskCheck :=
  capCheck "drawdown" (fun s c => s.drawdown ≥ c.maxDrawdown)
    fun s c => .drawdownExceeded s.drawdown c.maxDrawdown

/-- checks.rs:83. -/
def DailyLossCheck : RiskCheck :=
  capCheck "daily_loss" (fun s c => s.dayLossPct ≥ c.maxDailyLoss)
    fun s c => .maxDailyLossReached s.dayLossPct c.maxDailyLoss

/-- checks.rs:111. -/
def MaxOpenPositionsCheck : RiskCheck :=
  capCheck "max_open_positions" (fun s c => s.openPositions ≥ c.maxOpenPositions)
    fun s c => .maxOpenPositionsReached s.openPositions c.maxOpenPositions

/-- checks.rs:138. -/
def LeverageCheck : RiskCheck :=
  capCheck "leverage" (fun s c => s.currentLeverage > c.maxLeverage)
    fun s c => .maxLeverageExceeded s.currentLeverage c.maxLeverage

/-- checks.rs:165. Without an entry price the check is deferred to runtime. -/
def StopDistanceCheck : RiskCheck where
  name := "stop_distance"
  evaluate intent _ _ :=
    match intent.entryPrice with
    | none => .ok ()
    | some entry => if |entry - intent.stopLoss| = 0 then .error .stopDistanceTooSmall else .ok ()

def defaultChecks : List RiskCheck :=
  [KillSwitchCheck, DrawdownCheck, DailyLossCheck, MaxOpenPositionsCheck, LeverageCheck,
    StopDistanceCheck]

/-- The names of the checks passed, or the first rejection. -/
def runChecks (intent : TradeIntent) (state : AccountState) (cfg : RiskConfig) :
    List RiskCheck → Except RiskRejection (List String)
  | [] => .ok []
  | c :: cs =>
    match c.evaluate intent state cfg with
    | .error r => .error r
    | .ok () =>
      match runChecks intent state cfg cs with
      | .error r => .error r
      | .ok passed => .ok (c.name :: passed)

section checks
variable {intent : TradeIntent} {state : AccountState} {cfg : RiskConfig}

theorem runChecks_ok_iff {cs : List RiskCheck} {passed : List String} :
    runChecks intent state cfg cs = .ok passed ↔
      (∀ c ∈ cs, c.evaluate intent state cfg = .ok ()) ∧ passed = cs.map (·.name) := by
  induction cs generalizing passed with
  | nil => simp [runChecks, eq_comm]
  | cons c cs ih =>
    cases hc : c.evaluate intent state cfg with
    | error r => simp [runChecks, hc]
    | ok u =>
      cases hr : runChecks intent state cfg cs with
      | error r =>
        have hno : ¬ ∀ c ∈ cs, c.evaluate intent state cfg = .ok () := by
          intro hall
          have hpassed := (@ih (cs.map (·.name))).2 ⟨hall, rfl⟩
          rw [hr] at hpassed
          cases hpassed
        simp only [runChecks, hc, hr, reduceCtorEq, false_iff, not_and]
        exact fun hall => absurd (fun c hm => hall c (List.mem_cons_of_mem _ hm)) hno
      | ok rest =>
        obtain ⟨hall, rfl⟩ := ih.1 hr
        simp only [runChecks, hc, hr, Except.ok.injEq, List.map_cons, List.mem_cons,
          forall_eq_or_imp, true_and]
        exact ⟨fun h => ⟨hall, h.symm⟩, fun h => h.2.symm⟩

theorem capCheck_ok_iff {name : String} {breach : AccountState → RiskConfig → Prop}
    [∀ s c, Decidable (breach s c)] {reject : AccountState → RiskConfig → RiskRejection} :
    (capCheck name breach reject).evaluate intent state cfg = .ok () ↔ ¬ breach state cfg := by
  unfold capCheck
  by_cases h : breach state cfg <;> simp [h]

theorem killSwitchCheck_ok_iff :
    KillSwitchCheck.evaluate intent state cfg = .ok () ↔
      state.killSwitchManual = false ∧ state.drawdown < cfg.killswitchDrawdown := by
  unfold KillSwitchCheck
  by_cases hk : state.killSwitchManual = true
  · simp [hk]
  · by_cases hd : state.drawdown ≥ cfg.killswitchDrawdown
    · simp [hk, hd]
    · simp [hk, not_le.1 hd]

end checks

/-! ## Health -/

/-- `s'` is no healthier than `s`: the same peak, and every other figure at least as bad. -/
structure NoHealthier (s s' : AccountState) : Prop where
  peak : s'.peakEquity = s.peakEquity
  equity : s'.equity ≤ s.equity
  dayPnl : s'.dayPnl ≤ s.dayPnl
  openPositions : s.openPositions ≤ s'.openPositions
  leverage : s.currentLeverage ≤ s'.currentLeverage
  killSwitch : s.killSwitchManual = true → s'.killSwitchManual = true

theorem drawdown_mono {s s' : AccountState} (h : NoHealthier s s') : s.drawdown ≤ s'.drawdown := by
  unfold AccountState.drawdown
  rw [h.peak]
  by_cases hp : s.peakEquity ≤ 0
  · simp [hp]
  · have hp' : 0 < s.peakEquity := not_le.1 hp
    have hdd : (s.peakEquity - s.equity) / s.peakEquity ≤
        (s.peakEquity - s'.equity) / s.peakEquity :=
      (div_le_div_iff_of_pos_right hp').2 (by linarith [h.equity])
    simp only [hp, if_false]
    split_ifs <;> linarith

/-- The day loss grows with the loss and with falling equity, as long as equity is positive. -/
theorem dayLossPct_mono {s s' : AccountState} (h : NoHealthier s s') (he : 0 < s'.equity) :
    s.dayLossPct ≤ s'.dayLossPct := by
  have hs : 0 < s.equity := he.trans_le h.equity
  unfold AccountState.dayLossPct
  by_cases hd : s.dayPnl ≥ 0
  · have hnn : 0 ≤ if s'.equity ≤ 0 ∨ s'.dayPnl ≥ 0 then 0 else -s'.dayPnl / s'.equity := by
      split_ifs with hc
      · exact le_rfl
      · exact div_nonneg (by linarith [not_or.1 hc]) he.le
    simpa [hd] using hnn
  · have hd' : ¬ s'.dayPnl ≥ 0 := by have := h.dayPnl; linarith
    rw [if_neg (by simp [hs, hd]), if_neg (by simp [he, hd'])]
    exact div_le_div₀ (by linarith) (by linarith [h.dayPnl]) he h.equity

/-- **A check that rejects an account rejects every less healthy one** with positive equity. -/
theorem check_mono {s s' : AccountState} (h : NoHealthier s s') (he : 0 < s'.equity)
    {intent : TradeIntent} {cfg : RiskConfig} {c : RiskCheck} (hc : c ∈ defaultChecks)
    (hok : c.evaluate intent s' cfg = .ok ()) : c.evaluate intent s cfg = .ok () := by
  simp only [defaultChecks, List.mem_cons, List.not_mem_nil, or_false] at hc
  rcases hc with rfl | rfl | rfl | rfl | rfl | rfl
  · rw [killSwitchCheck_ok_iff] at hok ⊢
    refine ⟨Bool.eq_false_iff.2 fun hk => ?_, (drawdown_mono h).trans_lt hok.2⟩
    simp [h.killSwitch hk] at hok
  · rw [DrawdownCheck, capCheck_ok_iff] at hok ⊢
    linarith [drawdown_mono h]
  · rw [DailyLossCheck, capCheck_ok_iff] at hok ⊢
    linarith [dayLossPct_mono h he]
  · rw [MaxOpenPositionsCheck, capCheck_ok_iff] at hok ⊢
    have := h.openPositions
    omega
  · rw [LeverageCheck, capCheck_ok_iff] at hok ⊢
    linarith [h.leverage]
  · exact hok

end Qtss.Risk
