import Mathlib.Tactic.Ring
import Qtss.Risk.Engine
/-
# What the caps of the configuration are worth

`max_risk_per_trade` is documented as "stop distance × quantity / equity" and `max_leverage` as
"account-wide" (config.rs:21-26). Neither is enforced as documented:

* three of the four sizers cut the risk to the cap, `FixedNotionalSizer` does not look at it, and the
  leverage trim that follows knows no stop (`risk_capped_iff`);
* `LeverageCheck` compares the leverage *before* the trade with the cap and the trim compares the
  notional *of* the trade with it, so each of them alone may use up the whole budget
  (`total_leverage_capped_iff`).

What does hold is monotonicity: a less healthy account never gets more (`approve_mono`).
-/

namespace Qtss.Risk

variable {e : RiskEngine} {id : Uuid} {now : DateTime} {intent : TradeIntent}
  {state : AccountState} {entry : ℚ} {a : ApprovedIntent}

/-! ## Risk per trade -/

/-- The hint asks for a notional that the stop bounds: it is not a fixed one, or the fixed one loses
no more than the cap at the stop, or the stop is so close that even the whole leverage does not. -/
def RiskBounded (cfg : RiskConfig) (intent : TradeIntent) (entry equity : ℚ) : Prop :=
  ∀ n, intent.sizing = .fixedNotional n →
    n * |entry - intent.stopLoss| ≤ equity * cfg.maxRiskPerTrade * entry ∨
    cfg.maxLeverage * |entry - intent.stopLoss| ≤ cfg.maxRiskPerTrade * entry

theorem min_mul_le_iff {n l d r : ℚ} (hd : 0 ≤ d) : min n l * d ≤ r ↔ n * d ≤ r ∨ l * d ≤ r := by
  rw [min_mul_of_nonneg _ _ hd, min_le_iff]

/-- **Risk per trade**: an approved quantity honours `max_risk_per_trade` exactly when the hint is
bounded by the stop; only a fixed notional can fail to be. -/
theorem risk_capped_iff (hsizers : e.sizers = .withDefaults) (he : intent.entryPrice = some entry)
    (h0 : 0 < entry) (heq : 0 < state.equity) (hok : e.approve id now intent state = .ok a) :
    a.quantity * |entry - intent.stopLoss| ≤ state.equity * e.config.maxRiskPerTrade ↔
      RiskBounded e.config intent entry state.equity := by
  obtain ⟨-, -, -, hqty⟩ := approve_defaults_ok hsizers he h0 hok
  have hd : 0 ≤ |entry - intent.stopLoss| := abs_nonneg _
  rcases requestedNotional_cases e.maxRisk_pos.le intent.sizing entry intent.stopLoss with
    ⟨n, hn, hreq⟩ | ⟨hn, f, hf, hreq⟩
  · have hscale : a.quantity * |entry - intent.stopLoss| ≤
          state.equity * e.config.maxRiskPerTrade ↔
        min n (state.equity * e.config.maxLeverage) * |entry - intent.stopLoss| ≤
          state.equity * e.config.maxRiskPerTrade * entry := by
      rw [← hreq state.equity, ← grantedNotional, ← hqty, mul_right_comm]
      exact (mul_le_mul_iff_of_pos_right h0).symm
    have hlev : state.equity * e.config.maxLeverage * |entry - intent.stopLoss| ≤
          state.equity * e.config.maxRiskPerTrade * entry ↔
        e.config.maxLeverage * |entry - intent.stopLoss| ≤ e.config.maxRiskPerTrade * entry := by
      rw [mul_assoc, mul_assoc]
      exact mul_le_mul_iff_of_pos_left heq
    rw [hscale, min_mul_le_iff hd, hlev]
    simp [RiskBounded, hn]
  · refine iff_of_true ?_ fun n h => absurd h (hn n)
    have hq : a.quantity ≤ state.equity * f / |entry - intent.stopLoss| := by
      refine le_of_mul_le_mul_right ?_ h0
      rw [hqty, ← hreq state.equity]
      exact min_le_left _ _
    calc a.quantity * |entry - intent.stopLoss|
        ≤ state.equity * f / |entry - intent.stopLoss| * |entry - intent.stopLoss| :=
          mul_le_mul_of_nonneg_right hq hd
      _ ≤ state.equity * e.config.maxRiskPerTrade := by
          rcases hd.eq_or_lt with hz | hz
          · rw [← hz, mul_zero]
            exact (mul_pos heq e.maxRisk_pos).le
          · rw [div_mul_cancel₀ _ hz.ne']
            exact mul_le_mul_of_nonneg_left hf heq.le

/-- tests.rs's account and intent, with a hint and a stop of choice. -/
def freshAccount (equity : ℚ) : AccountState := ⟨equity, equity, 0, 0, 0, false⟩

def longAt100 (sizing : SizingHint) (stopLoss : ℚ) : TradeIntent :=
  ⟨1, ⟨"BTCUSDT"⟩, .long, sizing, some 100, stopLoss, [], .gtc, .dry⟩

/-- A fixed notional of 1000 on an account of 1000 with the stop at half the entry: 500 at risk
where the cap is 10. -/
theorem fixed_notional_ignores_risk_cap :
    ∃ a, (fullEngine .defaults defaults_valid).approve 7 0 (longAt100 (.fixedNotional 1000) 50)
        (freshAccount 1000) = .ok a ∧
      ¬ a.quantity * |100 - 50| ≤ 1000 * RiskConfig.defaults.maxRiskPerTrade :=
  ⟨⟨7, 0, longAt100 (.fixedNotional 1000) 50, 10, 1000, defaultChecks.map (·.name), []⟩,
    by decide +kernel, by decide +kernel⟩

/-- The same with the stop at 99: 10 at risk, the cap. -/
theorem risk_capped_near_stop :
    (10 : ℚ) * |100 - 99| ≤ 1000 * RiskConfig.defaults.maxRiskPerTrade ↔
      RiskBounded .defaults (longAt100 (.fixedNotional 1000) 99) 100 1000 :=
  @risk_capped_iff (fullEngine .defaults defaults_valid) 7 0 (longAt100 (.fixedNotional 1000) 99)
    (freshAccount 1000) 100
    ⟨7, 0, longAt100 (.fixedNotional 1000) 99, 10, 1000, defaultChecks.map (·.name), []⟩
    rfl rfl (by decide +kernel) (by decide +kernel) (by decide +kernel)

/-! ## Account-wide leverage -/

/-- What the registered sizer of the hint returns is worth at most `budget` at the entry. -/
def RequestFits (e : RiskEngine) (intent : TradeIntent) (state : AccountState)
    (entry budget : ℚ) : Prop :=
  ∀ sizer sized, e.sizers.lookup (hintTag intent.sizing) = some sizer →
    sizer intent state e.config = .ok sized → sized.quantity * entry ≤ budget

/-- With the default sizers that is the notional of the hint's formula. -/
theorem requestFits_defaults_iff (hsizers : e.sizers = .withDefaults)
    (he : intent.entryPrice = some entry) (h0 : 0 < entry) (hacc : SizerAccepts e intent)
    (budget : ℚ) :
    RequestFits e intent state entry budget ↔
      requestedNotional e.config intent.sizing entry intent.stopLoss state.equity ≤ budget := by
  rcases defaultSizer_eq e.maxRisk_pos.le he h0 with hrej | ⟨adjustments, hsize⟩
  · obtain ⟨out, hout⟩ := hacc state
    rw [hrej] at hout
    cases hout
  · simp only [RequestFits, hsizers, withDefaults_lookup, Option.some.injEq]
    constructor
    · intro h
      have := h _ _ rfl (hsize state)
      rwa [div_mul_cancel₀ _ h0.ne'] at this
    · rintro h _ sized rfl hsized
      rw [hsize] at hsized
      obtain rfl := Except.ok.inj hsized
      rwa [div_mul_cancel₀ _ h0.ne']

/-- **Account-wide leverage** after an approved trade honours `max_leverage` exactly when there was
no leverage before, or the requested notional fits what the open positions leave of the budget: the
trim gives the new position the whole budget. -/
theorem total_leverage_capped_iff (he : intent.entryPrice = some entry) (h0 : 0 < entry)
    (heq : 0 < state.equity) (hlev : 0 ≤ state.currentLeverage)
    (hok : e.approve id now intent state = .ok a) :
    state.currentLeverage + a.notional / state.equity ≤ e.config.maxLeverage ↔
      state.currentLeverage = 0 ∨ RequestFits e intent state entry
        (state.equity * (e.config.maxLeverage - state.currentLeverage)) := by
  obtain ⟨-, sizer, sized, entry', hsizer, hsized, he', -, rfl⟩ := approve_ok_iff.1 hok
  obtain rfl : entry = entry' := Option.some.inj (he.symm.trans he')
  have hfits : RequestFits e intent state entry
        (state.equity * (e.config.maxLeverage - state.currentLeverage)) ↔
      sized.quantity * entry ≤
        state.equity * (e.config.maxLeverage - state.currentLeverage) := by
    refine ⟨fun h => h sizer sized hsizer hsized, fun h sizer' sized' hsizer' hsized' => ?_⟩
    obtain rfl := Option.some.inj (hsizer.symm.trans hsizer')
    obtain rfl := Except.ok.inj (hsized.symm.trans hsized')
    exact h
  have hspent : state.equity * e.config.maxLeverage ≤
        state.equity * (e.config.maxLeverage - state.currentLeverage) ↔
      state.currentLeverage = 0 := by
    rw [mul_le_mul_iff_of_pos_left heq, le_sub_self_iff]
    exact ⟨fun h => le_antisymm h hlev, fun h => h.le⟩
  calc state.currentLeverage +
        (RiskEngine.trim sized entry (state.equity * e.config.maxLeverage)).quantity * entry /
          state.equity ≤ e.config.maxLeverage
      ↔ min (sized.quantity * entry) (state.equity * e.config.maxLeverage) ≤
          state.equity * (e.config.maxLeverage - state.currentLeverage) := by
        rw [trim_notional h0, ← le_sub_iff_add_le', div_le_iff₀ heq, mul_comm (_ - _)]
    _ ↔ _ := by rw [min_le_iff, hspent, hfits, or_comm]

/-- An account already at its cap of 1 gets another full notional on top: leverage 2. -/
theorem leverage_cap_granted_twice :
    ∃ a, (fullEngine .defaults defaults_valid).approve 7 0 (longAt100 (.fixedNotional 1000) 99)
        { freshAccount 1000 with currentLeverage := 1 } = .ok a ∧
      ¬ 1 + a.notional / 1000 ≤ RiskConfig.defaults.maxLeverage :=
  ⟨⟨7, 0, longAt100 (.fixedNotional 1000) 99, 10, 1000, defaultChecks.map (·.name), []⟩,
    by decide +kernel, by decide +kernel⟩

/-- Half of the budget in use and the other half asked for: leverage 1, the cap. -/
theorem leverage_capped_half :
    (1 / 2 : ℚ) + 500 / 1000 ≤ RiskConfig.defaults.maxLeverage ↔
      (1 / 2 : ℚ) = 0 ∨ RequestFits (fullEngine .defaults defaults_valid)
        (longAt100 (.fixedNotional 500) 99) { freshAccount 1000 with currentLeverage := 1 / 2 } 100
        (1000 * (RiskConfig.defaults.maxLeverage - 1 / 2)) :=
  @total_leverage_capped_iff (fullEngine .defaults defaults_valid) 7 0
    (longAt100 (.fixedNotional 500) 99) { freshAccount 1000 with currentLeverage := 1 / 2 } 100
    ⟨7, 0, longAt100 (.fixedNotional 500) 99, 5, 500, defaultChecks.map (·.name), []⟩
    rfl (by decide +kernel) (by decide +kernel) (by decide +kernel) (by decide +kernel)

/-! ## Less healthy accounts -/

/-- The leverage trim leaves nothing of an account without positive equity. -/
theorem equity_pos_of_granted {equity : ℚ} (hpos : 0 < grantedNotional e intent entry equity) :
    0 < equity :=
  pos_of_mul_pos_left (lt_min_iff.1 hpos).2 e.maxLeverage_pos.le

/-- A positive grant does not grow when equity falls. -/
theorem grantedNotional_mono {equity equity' : ℚ} (hequity' : 0 < equity') (hle : equity' ≤ equity)
    (hpos : 0 < grantedNotional e intent entry equity') :
    grantedNotional e intent entry equity' ≤ grantedNotional e intent entry equity := by
  have hreq' := (lt_min_iff.1 hpos).1
  refine min_le_min ?_ (mul_le_mul_of_nonneg_right hle e.maxLeverage_pos.le)
  rcases requestedNotional_cases e.maxRisk_pos.le intent.sizing entry intent.stopLoss with
    ⟨n, -, hreq⟩ | ⟨-, f, -, hreq⟩
  · rw [hreq, hreq]
  · -- a positive request has a positive fraction, so it grows with equity
    have hlinear : ∀ q, requestedNotional e.config intent.sizing entry intent.stopLoss q =
        q * (f / |entry - intent.stopLoss| * entry) := fun q => by rw [hreq]; ring
    rw [hlinear] at hreq'
    rw [hlinear, hlinear]
    exact mul_le_mul_of_nonneg_right hle (pos_of_mul_pos_right hreq' hequity'.le).le

/-- **A less healthy account never gets more**: what is rejected stays rejected, and what is
approved in both is no larger. `DailyLossCheck` alone is not monotone (`dayLossPct_mono` needs
positive equity); the leverage trim closes the gap, since it leaves nothing at equity zero or
less. -/
theorem approve_mono {s s' : AccountState} {id' : Uuid} {now' : DateTime}
    (hchecks : e.checks ⊆ defaultChecks) (hsizers : e.sizers = .withDefaults)
    (he : intent.entryPrice = some entry) (h0 : 0 < entry) (h : NoHealthier s s') :
    (∀ r, e.approve id now intent s = .error r → ∃ r', e.approve id' now' intent s' = .error r') ∧
    ∀ a a', e.approve id now intent s = .ok a → e.approve id' now' intent s' = .ok a' →
      a'.quantity ≤ a.quantity := by
  constructor
  · intro r hr
    cases hr' : e.approve id' now' intent s' with
    | error r' => exact ⟨r', rfl⟩
    | ok a' =>
      obtain ⟨hok', hacc, hpos', hqty'⟩ := approve_defaults_ok hsizers he h0 hr'
      have hgrant' : 0 < grantedNotional e intent entry s'.equity := hqty' ▸ mul_pos hpos' h0
      have hequity' := equity_pos_of_granted hgrant'
      have hok : ∀ c ∈ e.checks, c.evaluate intent s e.config = .ok () :=
        fun c hc => check_mono h hequity' (hchecks hc) (hok' c hc)
      obtain ⟨a, ha⟩ : ∃ a, e.approve id now intent s = .ok a :=
        approve_of_pos hsizers he h0 hok hacc
          (hgrant'.trans_le (grantedNotional_mono hequity' h.equity hgrant'))
      rw [hr] at ha
      cases ha
  · intro a a' ha ha'
    obtain ⟨-, -, -, hqty⟩ := approve_defaults_ok hsizers he h0 ha
    obtain ⟨-, -, hpos', hqty'⟩ := approve_defaults_ok hsizers he h0 ha'
    refine le_of_mul_le_mul_right ?_ h0
    have hgrant' : 0 < grantedNotional e intent entry s'.equity := hqty' ▸ mul_pos hpos' h0
    rw [hqty, hqty']
    exact grantedNotional_mono (equity_pos_of_granted hgrant') h.equity hgrant'

/-- A drawdown below the peak and a position more: `RiskPct` gets less than before. -/
theorem approve_mono_after_loss :
    (∀ r, (fullEngine .defaults defaults_valid).approve 7 0 (longAt100 (.riskPct (1 / 100)) 99)
        (freshAccount 1000) = .error r →
      ∃ r', (fullEngine .defaults defaults_valid).approve 8 60 (longAt100 (.riskPct (1 / 100)) 99)
        ⟨980, 1000, -10, 1, 1 / 2, false⟩ = .error r') ∧
    ∀ a a', (fullEngine .defaults defaults_valid).approve 7 0 (longAt100 (.riskPct (1 / 100)) 99)
        (freshAccount 1000) = .ok a →
      (fullEngine .defaults defaults_valid).approve 8 60 (longAt100 (.riskPct (1 / 100)) 99)
        ⟨980, 1000, -10, 1, 1 / 2, false⟩ = .ok a' →
      a'.quantity ≤ a.quantity :=
  approve_mono (List.Subset.refl _) rfl rfl (by decide +kernel)
    ⟨rfl, by decide +kernel, by decide +kernel, by decide, by decide +kernel, by decide⟩

end Qtss.Risk
