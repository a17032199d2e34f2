import Mathlib.Tactic.FieldSimp
import Qtss.Lib.Keyed
import Qtss.Risk.Checks
/-
# Position sizing (`qtss-risk/src/sizing.rs`)

| here | there |
| --- | --- |
| `Sizer`, `SizerOutput`  | the trait `Sizer` and its output (sizing.rs:17, :27) |
| `hintTag`               | `hint_tag` (:38), the dispatch key |
| `SizerRegistry`         | `SizerRegistry` (:48): a map from tags to sizers |
| `RiskPctSizer`, `FixedNotionalSizer`, `VolTargetSizer`, `KellySizer` | the four implementations (:89-213) |

With a positive entry price every default sizer returns a quantity whose notional is
`requestedNotional`, a closed formula in the hint, the entry, the stop, equity and the caps
(`defaultSizer_eq`). Three of the four formulas are a fraction of equity over the stop distance, cut to
`max_risk_per_trade`; `FixedNotionalSizer` looks at neither equity nor the caps.
-/

namespace Qtss.Risk
open Keyed

structure SizerOutput where
  quantity : ℚ
  adjustments : List Text
deriving DecidableEq

abbrev Sizer := TradeIntent → AccountState → RiskConfig → Except RiskRejection SizerOutput

/-- sizing.rs:38. -/
def hintTag : SizingHint → String
  | .riskPct _ => "risk_pct"
  | .kelly => "kelly"
  | .fixedNotional _ => "fixed_notional"
  | .volTarget => "vol_target"

def entryPriceRequired : RiskRejection := .invalidIntent [.lit "entry_price required"]

/-- The note of a percentage that was trimmed to the cap (sizing.rs:113). -/
def trimNote (pct cap : ℚ) : List Text :=
  if pct > cap then [[.lit "risk_pct trimmed from ", .dec pct, .lit " to ", .dec cap]] else []

/-- sizing.rs:91. -/
def RiskPctSizer : Sizer := fun intent state cfg =>
  match intent.sizing with
  | .riskPct pct =>
    match intent.entryPrice with
    | none => .error entryPriceRequired
    | some entry =>
      let distance := |entry - intent.stopLoss|
      if distance ≤ 0 then .error .stopDistanceTooSmall
      else
        -- "Cap by per-trade risk regardless of what the strategy asked for."
        let effectivePct := if pct > cfg.maxRiskPerTrade then cfg.maxRiskPerTrade else pct
        .ok ⟨state.equity * effectivePct / distance, trimNote pct cfg.maxRiskPerTrade⟩
  | _ => .error (.invalidIntent [.lit "expected RiskPct"])

/-- sizing.rs:135. -/
def FixedNotionalSizer : Sizer := fun intent _ _ =>
  match intent.sizing with
  | .fixedNotional notional =>
    match intent.entryPrice with
    | none => .error entryPriceRequired
    | some entry =>
      if entry ≤ 0 then .error (.invalidIntent [.lit "entry_price must be > 0"])
      else .ok ⟨notional / entry, []⟩
  | _ => .error (.invalidIntent [.lit "expected FixedNotional"])

/-- Fallback of a hint without its own inputs: `RiskPct` at `pct`, with a note. -/
def riskPctFallback (pct : RiskConfig → ℚ) (note : String) : Sizer := fun intent state cfg =>
  match RiskPctSizer { intent with sizing := .riskPct (pct cfg) } state cfg with
  | .error r => .error r
  | .ok out => .ok { out with adjustments := out.adjustments ++ [[.lit note]] }

/-- sizing.rs:170: "Until ATR is plumbed in, behave like RiskPct using the cap." -/
def VolTargetSizer : Sizer :=
  riskPctFallback (·.maxRiskPerTrade) "vol_target fell back to risk_pct cap"

/-- sizing.rs:197. -/
def KellySizer : Sizer :=
  riskPctFallback (·.maxRiskPerTrade * (25 / 100)) "kelly fell back to quarter-kelly of cap"

abbrev SizerRegistry := HashMap String Sizer

/-- sizing.rs:77. -/
def SizerRegistry.withDefaults : SizerRegistry :=
  AList.insert "kelly" KellySizer <| AList.insert "vol_target" VolTargetSizer <|
    AList.insert "fixed_notional" FixedNotionalSizer <| AList.insert "risk_pct" RiskPctSizer ∅

/-- The sizer a hint is dispatched to. -/
def defaultSizer : SizingHint → Sizer
  | .riskPct _ => RiskPctSizer
  | .kelly => KellySizer
  | .fixedNotional _ => FixedNotionalSizer
  | .volTarget => VolTargetSizer

theorem withDefaults_lookup (h : SizingHint) :
    SizerRegistry.withDefaults.lookup (hintTag h) = some (defaultSizer h) := by
  cases h <;> simp only [SizerRegistry.withDefaults, hintTag, defaultSizer, lookup_insert_eq] <;> rfl

/-! ## What the sizers ask for -/

/-- The notional a hint asks for at a positive entry price, before the leverage trim. -/
def requestedNotional (cfg : RiskConfig) (hint : SizingHint) (entry stopLoss equity : ℚ) : ℚ :=
  match hint with
  | .riskPct pct => atRisk (min pct cfg.maxRiskPerTrade)
  | .kelly => atRisk (cfg.maxRiskPerTrade * (25 / 100))
  | .volTarget => atRisk cfg.maxRiskPerTrade
  | .fixedNotional notional => notional
where
  /-- The notional that puts the fraction `f` of equity at risk over the stop distance. -/
  atRisk (f : ℚ) : ℚ := equity * f / |entry - stopLoss| * entry

/-- Either a fixed notional, or a fraction of equity not above the cap at risk. -/
theorem requestedNotional_cases {cfg : RiskConfig} (hcap : 0 ≤ cfg.maxRiskPerTrade)
    (hint : SizingHint) (entry stopLoss : ℚ) :
    (∃ n, hint = .fixedNotional n ∧
      ∀ equity, requestedNotional cfg hint entry stopLoss equity = n) ∨
    ((∀ n, hint ≠ .fixedNotional n) ∧ ∃ f ≤ cfg.maxRiskPerTrade, ∀ equity,
      requestedNotional cfg hint entry stopLoss equity =
        equity * f / |entry - stopLoss| * entry) := by
  cases hint with
  | riskPct pct => exact .inr ⟨by simp, _, min_le_right _ _, fun _ => rfl⟩
  | kelly => exact .inr ⟨by simp, _, by linarith, fun _ => rfl⟩
  | volTarget => exact .inr ⟨by simp, _, le_rfl, fun _ => rfl⟩
  | fixedNotional n => exact .inl ⟨n, rfl, fun _ => rfl⟩

section size
variable {intent : TradeIntent} {state : AccountState} {cfg : RiskConfig} {entry : ℚ}

theorem riskPctSizer_eq {pct : ℚ} (hs : intent.sizing = .riskPct pct)
    (he : intent.entryPrice = some entry) :
    RiskPctSizer intent state cfg =
      if |entry - intent.stopLoss| ≤ 0 then .error .stopDistanceTooSmall
      else .ok ⟨state.equity * min pct cfg.maxRiskPerTrade / |entry - intent.stopLoss|,
        trimNote pct cfg.maxRiskPerTrade⟩ := by
  simp only [RiskPctSizer, hs, he]
  by_cases hpct : pct > cfg.maxRiskPerTrade
  · simp [hpct, min_eq_right hpct.le]
  · simp [hpct, min_eq_left (not_lt.1 hpct)]

theorem riskPctFallback_eq {pct : RiskConfig → ℚ} {note : String}
    (he : intent.entryPrice = some entry) :
    riskPctFallback pct note intent state cfg =
      if |entry - intent.stopLoss| ≤ 0 then .error .stopDistanceTooSmall
      else .ok ⟨state.equity * min (pct cfg) cfg.maxRiskPerTrade / |entry - intent.stopLoss|,
        trimNote (pct cfg) cfg.maxRiskPerTrade ++ [[.lit note]]⟩ := by
  rw [riskPctFallback, @riskPctSizer_eq { intent with sizing := .riskPct (pct cfg) } _ _ _ _ rfl he]
  by_cases hd : |entry - intent.stopLoss| ≤ 0 <;> simp only [hd, if_true, if_false]

/-- **What the default sizers return** at a positive entry price: the requested notional over the
entry, or a rejection that depends on the intent alone. -/
theorem defaultSizer_eq (hcap : 0 ≤ cfg.maxRiskPerTrade) (he : intent.entryPrice = some entry)
    (h0 : 0 < entry) :
    (∀ state, defaultSizer intent.sizing intent state cfg = .error .stopDistanceTooSmall) ∨
    ∃ adjustments, ∀ state, defaultSizer intent.sizing intent state cfg =
      .ok ⟨requestedNotional cfg intent.sizing entry intent.stopLoss state.equity / entry,
        adjustments⟩ := by
  have hentry : entry ≠ 0 := h0.ne'
  by_cases hd : |entry - intent.stopLoss| ≤ 0
  · cases hs : intent.sizing with
    | riskPct pct => exact .inl fun state => by simp [defaultSizer, riskPctSizer_eq hs he, hd]
    | kelly => exact .inl fun state => by simp [defaultSizer, KellySizer, riskPctFallback_eq he, hd]
    | volTarget =>
      exact .inl fun state => by simp [defaultSizer, VolTargetSizer, riskPctFallback_eq he, hd]
    | fixedNotional n =>
      exact .inr ⟨[], fun state => by
        simp [defaultSizer, FixedNotionalSizer, hs, he, h0.not_ge, requestedNotional]⟩
  · have hreq : ∀ a : ℚ, a / |entry - intent.stopLoss| =
        a / |entry - intent.stopLoss| * entry / entry :=
      fun a => (mul_div_cancel_right₀ _ hentry).symm
    cases hs : intent.sizing with
    | riskPct pct =>
      refine .inr ⟨trimNote pct cfg.maxRiskPerTrade, fun state => ?_⟩
      rw [defaultSizer, riskPctSizer_eq hs he, if_neg hd, hreq]
      rfl
    | kelly =>
      refine .inr ⟨trimNote (cfg.maxRiskPerTrade * (25 / 100)) cfg.maxRiskPerTrade ++
        [[.lit "kelly fell back to quarter-kelly of cap"]], fun state => ?_⟩
      rw [defaultSizer, KellySizer, riskPctFallback_eq he, if_neg hd, hreq,
        min_eq_left (by linarith)]
      rfl
    | volTarget =>
      refine .inr ⟨trimNote cfg.maxRiskPerTrade cfg.maxRiskPerTrade ++
        [[.lit "vol_target fell back to risk_pct cap"]], fun state => ?_⟩
      rw [defaultSizer, VolTargetSizer, riskPctFallback_eq he, if_neg hd, hreq, min_self]
      rfl
    | fixedNotional n =>
      exact .inr ⟨[], fun state => by
        simp [defaultSizer, FixedNotionalSizer, hs, he, h0.not_ge, requestedNotional]⟩

end size

end Qtss.Risk
