import Mathlib.Algebra.Order.Field.Rat
import Qtss.Domain
/-
# What the risk engine is configured with and looks at

| here | there |
| --- | --- |
| `RiskConfig`, `RiskConfig.validate` | `qtss-risk/src/config.rs:9`, `:39` |
| `RiskError`                         | `qtss-risk/src/error.rs` |
| `AccountState`                      | `qtss-risk/src/state.rs:9`; `drawdown`, `dayLossPct` (:29, :43) |
-/

namespace Qtss.Risk

structure RiskConfig where
  killswitchDrawdown : ℚ
  maxDrawdown : ℚ
  maxDailyLoss : ℚ
  maxOpenPositions : Nat
  /-- "Account-wide leverage cap. `1.0` = spot only." -/
  maxLeverage : ℚ
  /-- "Cap on per-trade risk (stop distance × quantity / equity), as a fraction. The sizer trims
  `quantity` to this number when needed." -/
  maxRiskPerTrade : ℚ
deriving DecidableEq

inductive RiskError where
  | invalidConfig (detail : String)
deriving DecidableEq

/-- config.rs:28. -/
def RiskConfig.defaults : RiskConfig := ⟨8 / 100, 5 / 100, 2 / 100, 8, 1, 1 / 100⟩

/-- config.rs:39. -/
def RiskConfig.validate (c : RiskConfig) : Except RiskError Unit :=
  if c.killswitchDrawdown ≤ 0 then .error (.invalidConfig "killswitch_drawdown must be > 0")
  else if c.maxDrawdown ≤ 0 ∨ c.maxDrawdown > c.killswitchDrawdown then
    .error (.invalidConfig "max_drawdown must be > 0 and <= killswitch_drawdown")
  else if c.maxDailyLoss ≤ 0 then .error (.invalidConfig "max_daily_loss must be > 0")
  else if c.maxOpenPositions = 0 then .error (.invalidConfig "max_open_positions must be > 0")
  else if c.maxLeverage ≤ 0 then .error (.invalidConfig "max_leverage must be > 0")
  else if c.maxRiskPerTrade ≤ 0 then .error (.invalidConfig "max_risk_per_trade must be > 0")
  else .ok ()

theorem validate_ok_iff (c : RiskConfig) :
    c.validate = .ok () ↔
      0 < c.killswitchDrawdown ∧ (0 < c.maxDrawdown ∧ c.maxDrawdown ≤ c.killswitchDrawdown) ∧
      0 < c.maxDailyLoss ∧ 0 < c.maxOpenPositions ∧ 0 < c.maxLeverage ∧ 0 < c.maxRiskPerTrade := by
  unfold RiskConfig.validate
  split_ifs <;> simp_all [Nat.pos_iff_ne_zero]
  all_goals grind

theorem defaults_valid : RiskConfig.defaults.validate = .ok () := by decide +kernel

structure AccountState where
  equity : ℚ
  peakEquity : ℚ
  dayPnl : ℚ
  openPositions : Nat
  currentLeverage : ℚ
  killSwitchManual : Bool
deriving DecidableEq

/-- state.rs:29. -/
def AccountState.drawdown (s : AccountState) : ℚ :=
  if s.peakEquity ≤ 0 then 0
  else
    let dd := (s.peakEquity - s.equity) / s.peakEquity
    if dd < 0 then 0 else dd

/-- state.rs:43. -/
def AccountState.dayLossPct (s : AccountState) : ℚ :=
  if s.equity ≤ 0 ∨ s.dayPnl ≥ 0 then 0 else -s.dayPnl / s.equity

end Qtss.Risk
