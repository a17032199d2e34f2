import Qtss.Indicators.Bundle
import Qtss.Indicators.Rsi
/-
# The indicators of a chart (`qtss-api/src/routes/v2_indicators.rs`)

| here | there |
| --- | --- |
| `computeIndicator` | v2_indicators.rs:157; the map of the sub-series as the list of its entries |
| `Knobs`            | `load_num` and `load_f64` (v2_indicators.rs:331, :346): the numbers of `system_config`, which are not negative |
| `Computed`         | no answer for an unknown name, and the panic of `macd` |

A chart that is redrawn when a bar comes in shows the same past as before (`chart_no_look_ahead`), except for the `chikou` of
Ichimoku, which is the close of a later bar, and for the first dot of the SAR.
-/

namespace Qtss.Api.Indicators
open Floating Causal Qtss.Indicators

variable {F : Type} [Floating F]

/-- `values of indicators.<name>.<field>`, with the default of the call. -/
structure Knobs (F : Type) where
  num : String → String → ℕ → ℕ
  float : String → String → F → F

structure IndicatorCtx (F : Type) where
  highs : List F
  lows : List F
  closes : List F
  volumes : List F

inductive Computed (F : Type) where
  | unknown
  | panics
  | series (out : List (String × List F))

/-- `f64::signum`; a difference that is zero is positive. -/
def signum (x : F) : F := if isNan x then nan else if lt x (lit 0) then -lit 1 else lit 1

def pseudoCvd (closes volumes : List F) : List F :=
  scan
    (fun cum i =>
      let d := if i = 0 then lit 0 else signum (idx closes i - idx closes (i - 1)) * idx volumes i
      (cum + d, cum + d))
    (lit 0) (List.range closes.length)

def computeIndicator (cfg : Knobs F) (name : String) (c : IndicatorCtx F) : Computed F :=
  match name with
  | "rsi" => .series [("rsi", rsi c.closes (cfg.num name "period" 14))]
  | "ema" =>
    let fast := cfg.num name "fast" 9
    let slow := cfg.num name "slow" 21
    .series [("ema_" ++ toString fast, ema c.closes fast), ("ema_" ++ toString slow, ema c.closes slow)]
  | "sma" =>
    let p := cfg.num name "period" 200
    .series [("sma_" ++ toString p, sma c.closes p)]
  | "bollinger" =>
    let r := bollinger c.closes (cfg.num name "period" 20) (cfg.float name "stdev" (lit 2))
    .series [("upper", r.upper), ("mid", r.middle), ("lower", r.lower)]
  | "macd" =>
    match macd c.closes (cfg.num name "fast" 12) (cfg.num name "slow" 26) (cfg.num name "signal" 9) with
    | none => .panics
    | some r => .series [("macd", r.macdLine), ("signal", r.signalLine), ("hist", r.histogram)]
  | "stochastic" =>
    let r := stochastic c.highs c.lows c.closes (cfg.num name "k" 14) (cfg.num name "d" 3)
    .series [("k", r.k), ("d", r.d)]
  | "atr" => .series [("atr", atr c.highs c.lows c.closes (cfg.num name "period" 14))]
  | "supertrend" =>
    let r := supertrend c.highs c.lows c.closes (cfg.num name "period" 10) (cfg.float name "factor" (lit 3))
    .series [("upper", r.upper), ("lower", r.lower), ("trend", r.trend.map fun (x : ℤ) => lit x)]
  | "ichimoku" =>
    let r := ichimoku c.highs c.lows c.closes (cfg.num name "tenkan" 9) (cfg.num name "kijun" 26)
      (cfg.num name "senkou_b" 52) (cfg.num name "shift" 26)
    .series [("tenkan", r.tenkan), ("kijun", r.kijun), ("senkou_a", r.senkouA), ("senkou_b", r.senkouB),
      ("chikou", r.chikou)]
  | "donchian" =>
    let r := donchian c.highs c.lows (cfg.num name "period" 20)
    .series [("upper", r.upper), ("lower", r.lower), ("mid", r.mid)]
  | "keltner" =>
    let r := keltner c.highs c.lows c.closes (cfg.num name "ema_period" 20) (cfg.num name "atr_period" 10)
      (cfg.float name "mult" (lit 2))
    .series [("upper", r.upper), ("mid", r.mid), ("lower", r.lower)]
  | "williams_r" => .series [("williams_r", williamsR c.highs c.lows c.closes (cfg.num name "period" 14))]
  | "cmf" => .series [("cmf", cmf c.highs c.lows c.closes c.volumes (cfg.num name "period" 20))]
  | "aroon" =>
    let r := aroon c.highs c.lows (cfg.num name "period" 25)
    .series [("up", r.up), ("down", r.down), ("osc", r.osc)]
  | "ad_line" => .series [("ad", adLine c.highs c.lows c.closes c.volumes)]
  | "psar" =>
    let r := psar c.highs c.lows (cfg.float name "acc_start" (lit (2 / 100))) (cfg.float name "acc_step" (lit (2 / 100)))
      (cfg.float name "acc_max" (lit (2 / 10)))
    .series [("sar", r.sar), ("trend", r.trend.map fun (x : ℤ) => lit x)]
  | "chandelier" =>
    let r := chandelier c.highs c.lows c.closes (cfg.num name "period" 22) (cfg.float name "mult" (lit 3))
    .series [("long_exit", r.longExit), ("short_exit", r.shortExit)]
  | "ttm_squeeze" =>
    let flags := ttmSqueeze c.highs c.lows c.closes (cfg.num name "bb_period" 20) (cfg.float name "bb_stdev" (lit 2))
      (cfg.num name "kc_period" 20) (cfg.num name "kc_atr_period" 10) (cfg.float name "kc_mult" (lit (15 / 10)))
    .series [("squeeze", flags.map fun b => if b then lit 1 else lit 0)]
  | "cvd" => .series [("cvd", pseudoCvd c.closes c.volumes)]
  | _ => .unknown

def ctx (bars : List (Bar F)) : IndicatorCtx F :=
  ⟨bars.map (·.high), bars.map (·.low), bars.map (·.close), bars.map (·.volume)⟩

/-! ## What they read -/

section reads
variable {α : Type} {highs lows closes volumes : List α → List F}

theorem causal_pseudoCvd (hc : Causal closes) (hv : Causal volumes) :
    Causal fun l => pseudoCvd (closes l) (volumes l) := by
  unfold pseudoCvd
  simp only [hc.length]
  refine Causal.loop_all _ fun l x i s hi => ?_
  have hback : i - 1 < l.length := by omega
  simp only [idx_causal hc hi, idx_causal hc hback, idx_causal hv hi]

/-- From the second bar on. -/
theorem psar_prefix (hh : Causal highs) (hl : Causal lows) (accStart accStep accMax : F) {l : List α} (h : 2 ≤ l.length)
    (more : List α) :
    (psar (highs l) (lows l) accStart accStep accMax).sar <+:
        (psar (highs (l ++ more)) (lows (l ++ more)) accStart accStep accMax).sar ∧
      (psar (highs l) (lows l) accStart accStep accMax).trend <+:
        (psar (highs (l ++ more)) (lows (l ++ more)) accStart accStep accMax).trend := by
  induction more using List.reverseRecOn with
  | nil => simp
  | append_singleton more x ih =>
    have hstep := psar_grows hh hl accStart accStep accMax (l := l ++ more) (by rw [List.length_append]; omega) x
    rw [← List.append_assoc]
    exact ⟨ih.1.trans hstep.1, ih.2.trans hstep.2⟩

end reads

section stays
variable {V : Type} {out out' : List (String × List V)}

/-- What a chart shows of a sub-series stays as it is. -/
def Kept (p q : String × List V) : Prop := p.1 = q.1 ∧ (p.1 ≠ "chikou" → p.2 <+: q.2)

def Stays (out out' : List (String × List V)) : Prop := List.Forall₂ Kept out out'

theorem stays_nil : Stays ([] : List (String × List V)) [] := List.Forall₂.nil

theorem Stays.cons (h : Stays out out') (sub : String) {v v' : List V} (hv : v <+: v') :
    Stays ((sub, v) :: out) ((sub, v') :: out') := by
  refine List.Forall₂.cons ⟨rfl, fun _ => ?_⟩ h
  exact hv

theorem stays_chikou (v v' : List V) : Stays [("chikou", v)] [("chikou", v')] := by
  refine List.Forall₂.cons ⟨rfl, fun h => ?_⟩ List.Forall₂.nil
  exact absurd rfl h

end stays

/-- **The past of a chart is not redrawn.** -/
theorem chart_no_look_ahead [NanPropagates F] (cfg : Knobs F) (name : String) (bars more : List (Bar F))
    (hsar : name = "psar" → 2 ≤ bars.length) {out : List (String × List F)}
    (h : computeIndicator cfg name (ctx bars) = .series out) :
    ∃ out', computeIndicator cfg name (ctx (bars ++ more)) = .series out' ∧ Stays out out' := by
  have hh : Causal (List.map fun b : Bar F => b.high) := Causal.map _
  have hl : Causal (List.map fun b : Bar F => b.low) := Causal.map _
  have hc : Causal (List.map fun b : Bar F => b.close) := Causal.map _
  have hv : Causal (List.map fun b : Bar F => b.volume) := Causal.map _
  unfold computeIndicator ctx at h
  split at h
  · cases h
    exact ⟨_, rfl, stays_nil.cons _ ((causal_rsi hc _).prefix_append bars more)⟩
  · cases h
    exact ⟨_, rfl, (stays_nil.cons _ (((causal_ema _).comp hc).prefix_append bars more)).cons _
      (((causal_ema _).comp hc).prefix_append bars more)⟩
  · cases h
    exact ⟨_, rfl, stays_nil.cons _ (((causal_sma _).comp hc).prefix_append bars more)⟩
  · cases h
    obtain ⟨hupper, hmiddle, hlower, -⟩ := causal_bollinger hc (cfg.num "bollinger" "period" 20)
      (cfg.float "bollinger" "stdev" (lit 2))
    exact ⟨_, rfl, ((stays_nil.cons _ (hlower.prefix_append bars more)).cons _ (hmiddle.prefix_append bars more)).cons _
      (hupper.prefix_append bars more)⟩
  · -- a longer series is long enough too
    split at h
    · cases h
    · next r hr =>
      cases h
      have hmacd : ∃ r', macd ((bars ++ more).map (·.close)) (cfg.num "macd" "fast" 12) (cfg.num "macd" "slow" 26)
          (cfg.num "macd" "signal" 9) = some r' ∧ r.macdLine <+: r'.macdLine ∧ r.signalLine <+: r'.signalLine ∧
            r.histogram <+: r'.histogram := causal_macd hc hr more
      obtain ⟨r', hr', hline, hsignal, hhist⟩ := hmacd
      refine ⟨[("macd", r'.macdLine), ("signal", r'.signalLine), ("hist", r'.histogram)], ?_,
        ((stays_nil.cons _ hhist).cons _ hsignal).cons _ hline⟩
      show (match macd ((bars ++ more).map (·.close)) (cfg.num "macd" "fast" 12) (cfg.num "macd" "slow" 26)
          (cfg.num "macd" "signal" 9) with | none => Computed.panics | some r => .series _) = _
      rw [hr']
  · cases h
    exact ⟨_, rfl, (stays_nil.cons _ ((causal_stochastic_d hh hl hc _ _).prefix_append bars more)).cons _
      ((causal_stochasticK hh hl hc _ _).prefix_append bars more)⟩
  · cases h
    exact ⟨_, rfl, stays_nil.cons _ ((causal_atr hh hl hc _).prefix_append bars more)⟩
  · cases h
    obtain ⟨hupper, hlower, htrend⟩ := causal_supertrend hh hl hc (cfg.num "supertrend" "period" 10)
      (cfg.float "supertrend" "factor" (lit 3))
    exact ⟨_, rfl, ((stays_nil.cons _ ((htrend.prefix_append bars more).map _)).cons _
      (hlower.prefix_append bars more)).cons _ (hupper.prefix_append bars more)⟩
  · cases h
    obtain ⟨htenkan, hkijun, hsenkouA, hsenkouB⟩ := causal_ichimoku hh hl hc (cfg.num "ichimoku" "tenkan" 9)
      (cfg.num "ichimoku" "kijun" 26) (cfg.num "ichimoku" "senkou_b" 52) (cfg.num "ichimoku" "shift" 26)
    exact ⟨_, rfl, ((((stays_chikou _ _).cons _ (hsenkouB.prefix_append bars more)).cons _
      (hsenkouA.prefix_append bars more)).cons _ (hkijun.prefix_append bars more)).cons _ (htenkan.prefix_append bars more)⟩
  · cases h
    obtain ⟨hupper, hlower, hmid⟩ := causal_donchian hh hl (cfg.num "donchian" "period" 20)
    exact ⟨_, rfl, ((stays_nil.cons _ (hmid.prefix_append bars more)).cons _ (hlower.prefix_append bars more)).cons _
      (hupper.prefix_append bars more)⟩
  · cases h
    obtain ⟨hupper, hmid, hlower⟩ := causal_keltner hh hl hc (cfg.num "keltner" "ema_period" 20)
      (cfg.num "keltner" "atr_period" 10) (cfg.float "keltner" "mult" (lit 2))
    exact ⟨_, rfl, ((stays_nil.cons _ (hlower.prefix_append bars more)).cons _ (hmid.prefix_append bars more)).cons _
      (hupper.prefix_append bars more)⟩
  · cases h
    exact ⟨_, rfl, stays_nil.cons _ ((causal_williamsR hh hl hc _).prefix_append bars more)⟩
  · cases h
    exact ⟨_, rfl, stays_nil.cons _ ((causal_cmf hh hl hc hv _).prefix_append bars more)⟩
  · cases h
    obtain ⟨hup, hdown, hosc⟩ := causal_aroon hh hl (cfg.num "aroon" "period" 25)
    exact ⟨_, rfl, ((stays_nil.cons _ (hosc.prefix_append bars more)).cons _ (hdown.prefix_append bars more)).cons _
      (hup.prefix_append bars more)⟩
  · cases h
    exact ⟨_, rfl, stays_nil.cons _ ((causal_adLine hh hl hc hv).prefix_append bars more)⟩
  · cases h
    obtain ⟨hdots, htrend⟩ := psar_prefix hh hl (cfg.float "psar" "acc_start" (lit (2 / 100)))
      (cfg.float "psar" "acc_step" (lit (2 / 100))) (cfg.float "psar" "acc_max" (lit (2 / 10))) (hsar rfl) more
    exact ⟨_, rfl, (stays_nil.cons _ (htrend.map _)).cons _ hdots⟩
  · cases h
    obtain ⟨hlong, hshort⟩ := causal_chandelier hh hl hc (cfg.num "chandelier" "period" 22)
      (cfg.float "chandelier" "mult" (lit 3))
    exact ⟨_, rfl, (stays_nil.cons _ (hshort.prefix_append bars more)).cons _ (hlong.prefix_append bars more)⟩
  · cases h
    exact ⟨_, rfl, stays_nil.cons _ (((causal_ttmSqueeze hh hl hc _ _ _ _ _).prefix_append bars more).map _)⟩
  · cases h
    exact ⟨_, rfl, stays_nil.cons _ ((causal_pseudoCvd hc hv).prefix_append bars more)⟩
  · cases h

theorem chart_no_look_ahead_defaults :
    let cfg : Knobs F64 := ⟨fun _ _ d => d, fun _ _ d => d⟩
    let bar : Bar F64 := ⟨.fin 2, .fin 1, .fin 1, .fin 5, false⟩
    ∃ out', computeIndicator cfg "ad_line" (ctx [bar, bar]) = .series out' ∧
      Stays [("ad", adLine [.fin 2] [.fin 1] [.fin 1] [.fin 5])] out' := by
  intro cfg bar
  exact chart_no_look_ahead cfg "ad_line" [bar] [bar] (by decide) rfl

end Qtss.Api.Indicators
