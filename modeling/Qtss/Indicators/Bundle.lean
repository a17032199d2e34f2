import Qtss.Indicators.NotNumbers
import Qtss.Indicators.Running
/-
# All indicators of a series of bars (`qtss-indicators/src/indicator_bundle.rs`)

| here | there |
| --- | --- |
| `IndicatorBundle`, `computeAll` | indicator_bundle.rs:19, :39; the opens are not read, and with fewer than 25 bars `macd` panics |

Nothing in a bundle is redrawn when a bar comes in (`computeAll_no_look_ahead`).
-/

namespace Qtss.Indicators
open Floating Causal

variable {F : Type} [Floating F]

structure IndicatorBundle (F : Type) where
  ema9 : List F
  ema21 : List F
  ema55 : List F
  sma20 : List F
  sma50 : List F
  sma200 : List F
  macd : MacdResult F
  bollinger : BollingerResult F
  stochastic : StochasticResult F
  mfi14 : List F
  obv : List F
  cvd : List F
  vwap : VwapResult F
  atr14 : List F

def computeAll (highs lows closes volumes : List F) (sessionStarts : List Bool) : Option (IndicatorBundle F) :=
  (macd closes 12 26 9).map fun macd =>
    { ema9 := ema closes 9
      ema21 := ema closes 21
      ema55 := ema closes 55
      sma20 := sma closes 20
      sma50 := sma closes 50
      sma200 := sma closes 200
      macd
      bollinger := bollinger closes 20 (lit 2)
      stochastic := stochastic highs lows closes 14 3
      mfi14 := mfi highs lows closes volumes 14
      obv := obv closes volumes
      cvd := cvd highs lows closes volumes
      vwap := vwap highs lows closes volumes sessionStarts
      atr14 := atr highs lows closes 14 }

/-- The series of a bundle. -/
def IndicatorBundle.series (b : IndicatorBundle F) : List (List F) :=
  [b.ema9, b.ema21, b.ema55, b.sma20, b.sma50, b.sma200, b.macd.macdLine, b.macd.signalLine, b.macd.histogram,
    b.bollinger.upper, b.bollinger.middle, b.bollinger.lower, b.bollinger.percentB, b.bollinger.bandwidth,
    b.stochastic.k, b.stochastic.d, b.mfi14, b.obv, b.cvd, b.vwap.vwap, b.vwap.upper1, b.vwap.lower1, b.vwap.upper2,
    b.vwap.lower2, b.atr14]

/-- Of the bars of a chart; `sessions` says whether it has sessions. -/
def computeAllOf (bars : List (Bar F)) (sessions : Bool) : Option (IndicatorBundle F) :=
  computeAll (bars.map (·.high)) (bars.map (·.low)) (bars.map (·.close)) (bars.map (·.volume))
    (if sessions then bars.map (·.sessionStart) else [])

theorem causal_stochastic_d [NanPropagates F] {α : Type} {highs lows closes : List α → List F} (hh : Causal highs)
    (hl : Causal lows) (hc : Causal closes) (kPeriod dPeriod : ℕ) :
    Causal fun l => (stochastic (highs l) (lows l) (closes l) kPeriod dPeriod).d := by
  by_cases hk : 2 ≤ kPeriod
  · simp only [stochastic_d _ _ _ hk, hc.length]
    exact Causal.replicate nan
  · have hline := causal_stochasticK hh hl hc kPeriod dPeriod
    have hsmooth := (causal_sma dPeriod).comp hline
    have hempty : sma ([] : List F) dPeriod = [] := List.eq_nil_of_length_eq_zero ((causal_sma dPeriod).length [])
    have heq : ∀ l, (stochastic (highs l) (lows l) (closes l) kPeriod dPeriod).d =
        if kPeriod = 0 then List.replicate l.length nan
        else sma (stochastic (highs l) (lows l) (closes l) kPeriod dPeriod).k dPeriod := by
      intro l
      unfold stochastic
      simp only [map_nan, hc.length]
      by_cases hzero : kPeriod = 0
      · rw [if_pos (.inl hzero), if_pos hzero]
      · by_cases hshort : l.length < kPeriod
        · rw [if_pos (.inr hshort), if_neg hzero, show l.length = 0 by omega, List.replicate_zero, hempty]
        · rw [if_neg (by omega), if_neg hzero]
    simp only [heq]
    by_cases hzero : kPeriod = 0
    · simpa only [if_pos hzero] using Causal.replicate nan
    · simpa only [if_neg hzero] using hsmooth

/-- **No look-ahead.** What the bundle of a series of bars has for a bar, the bundle of the longer series has as well. -/
theorem computeAll_no_look_ahead [NanPropagates F] (bars more : List (Bar F)) (sessions : Bool) {b : IndicatorBundle F}
    (h : computeAllOf bars sessions = some b) :
    ∃ b', computeAllOf (bars ++ more) sessions = some b' ∧ List.Forall₂ (· <+: ·) b.series b'.series := by
  have hh : Causal (List.map fun b : Bar F => b.high) := Causal.map _
  have hl : Causal (List.map fun b : Bar F => b.low) := Causal.map _
  have hc : Causal (List.map fun b : Bar F => b.close) := Causal.map _
  have hv : Causal (List.map fun b : Bar F => b.volume) := Causal.map _
  have hs : SessionsKnown fun bars : List (Bar F) => if sessions then bars.map (·.sessionStart) else [] := by
    cases sessions
    · exact .inr fun _ => rfl
    · exact .inl (Causal.map _)
  have hema := fun p => ((causal_ema p).comp hc).prefix_append bars more
  have hsma := fun p => ((causal_sma p).comp hc).prefix_append bars more
  obtain ⟨hupper, hmiddle, hlower, hpercentB, hbandwidth⟩ := causal_bollinger hc 20 (lit 2)
  obtain ⟨hvwap, hupper1, hlower1, hupper2, hlower2⟩ := causal_vwap hh hl hc hv hs
  unfold computeAllOf computeAll at h ⊢
  obtain ⟨r, hr, rfl⟩ := Option.map_eq_some_iff.1 h
  obtain ⟨r', hr', hline, hsignal, hhistogram⟩ := causal_macd hc hr more
  refine ⟨_, by rw [hr']; rfl, ?_⟩
  unfold IndicatorBundle.series
  simp only [List.forall₂_cons, List.forall₂_nil_left_iff, and_true]
  exact ⟨hema 9, hema 21, hema 55, hsma 20, hsma 50, hsma 200, hline, hsignal, hhistogram,
    hupper.prefix_append bars more, hmiddle.prefix_append bars more, hlower.prefix_append bars more,
    hpercentB.prefix_append bars more, hbandwidth.prefix_append bars more,
    (causal_stochasticK hh hl hc 14 3).prefix_append bars more,
    (causal_stochastic_d hh hl hc 14 3).prefix_append bars more, (causal_mfi hh hl hc hv 14).prefix_append bars more,
    (causal_obv hc hv).prefix_append bars more, (causal_cvd hh hl hc hv).prefix_append bars more,
    hvwap.prefix_append bars more, hupper1.prefix_append bars more, hlower1.prefix_append bars more,
    hupper2.prefix_append bars more, hlower2.prefix_append bars more, (causal_atr hh hl hc 14).prefix_append bars more⟩

theorem computeAll_no_look_ahead_flat :
    let bar : Bar F64 := ⟨.fin 2, .fin 1, .fin 1, .fin 5, false⟩
    ∃ b b', computeAllOf (List.replicate 25 bar) false = some b ∧
      computeAllOf (List.replicate 25 bar ++ [bar]) false = some b' ∧ List.Forall₂ (· <+: ·) b.series b'.series := by
  intro bar
  have hlong : ∃ r, macd ((List.replicate 25 bar).map (·.close)) 12 26 9 = some r := by
    rw [macd_eq]
    exact ⟨_, if_neg (by decide)⟩
  obtain ⟨r, hr⟩ := hlong
  obtain ⟨b, hb⟩ : ∃ b, computeAllOf (List.replicate 25 bar) false = some b := by
    unfold computeAllOf computeAll
    rw [hr]
    exact ⟨_, rfl⟩
  obtain ⟨b', hb', hseries⟩ := computeAll_no_look_ahead (List.replicate 25 bar) [bar] false hb
  exact ⟨b, b', hb, hb', hseries⟩

end Qtss.Indicators
