import Qtss.Indicators.Averages
/-
# Indicators that run from the first bar (`qtss-indicators/src`)

| here | there |
| --- | --- |
| `obv`, `cvd`, `adLine` | obv.rs:5, cvd.rs:7, ad_line.rs:10 |
| `vwap`             | vwap.rs:16; with no `session_starts` there is one session |
| `supertrend`       | supertrend.rs:17 |
| `psar`             | psar.rs:12 |

What a loop carries is the state of its step; the `trend` of the source is `1`, `-1` or `0` here too.
-/

namespace Qtss.Indicators
open Floating Causal

variable {F : Type} [Floating F]

/-- The first entry is zero, so that nothing depends on the first volume. -/
def obv (closes volumes : List F) : List F :=
  let n := closes.length
  if n = 0 then []
  else
    lit 0 :: scan
      (fun prev i =>
        let v :=
          if lt (idx closes (i - 1)) (idx closes i) then prev + idx volumes i
          else if lt (idx closes i) (idx closes (i - 1)) then prev - idx volumes i
          else prev
        (v, v))
      (lit 0) (List.range' 1 (n - 1))

def cvd (highs lows closes volumes : List F) : List F :=
  scan
    (fun cum i =>
      let range := idx highs i - idx lows i
      let delta :=
        if lt (Floating.abs range) (lit (1 / 10 ^ 15)) then lit 0
        else idx volumes i * ((idx closes i - idx lows i) - (idx highs i - idx closes i)) / range
      (cum + delta, cum + delta))
    (lit 0) (List.range closes.length)

def adLine (highs lows closes volumes : List F) : List F :=
  scan
    (fun cum i =>
      let range := idx highs i - idx lows i
      let mfv :=
        if lt (lit 0) range then
          idx volumes i * (((idx closes i - idx lows i) - (idx highs i - idx closes i)) / range)
        else lit 0
      (cum + mfv, cum + mfv))
    (lit 0) (List.range (min closes.length volumes.length))

structure VwapResult (F : Type) where
  vwap : List F
  upper1 : List F
  lower1 : List F
  upper2 : List F
  lower2 : List F

/-- The sums since the start of the session. -/
structure Session (F : Type) where
  cumTpVol : F
  cumVol : F
  cumTp2Vol : F

structure VwapRow (F : Type) where
  vwap : F
  upper1 : F
  lower1 : F
  upper2 : F
  lower2 : F

def vwapStep (highs lows closes volumes : List F) (sessionStarts : List Bool) (s : Session F) (i : ℕ) :
    Session F × VwapRow F :=
  let newSession := if sessionStarts.isEmpty then i == 0 else sessionStarts.getD i false
  let s : Session F := if newSession then ⟨lit 0, lit 0, lit 0⟩ else s
  let tp := (idx highs i + idx lows i + idx closes i) / lit 3
  let cumTpVol := s.cumTpVol + tp * idx volumes i
  let cumVol := s.cumVol + idx volumes i
  let cumTp2Vol := s.cumTp2Vol + tp * tp * idx volumes i
  if lt (Floating.abs cumVol) (lit (1 / 10 ^ 15)) then (⟨cumTpVol, cumVol, cumTp2Vol⟩, ⟨nan, nan, nan, nan, nan⟩)
  else
    let v := cumTpVol / cumVol
    let variance := Floating.max (cumTp2Vol / cumVol - v * v) (lit 0)
    let sd := sqrt variance
    (⟨cumTpVol, cumVol, cumTp2Vol⟩, ⟨v, v + sd, v - sd, v + lit 2 * sd, v - lit 2 * sd⟩)

def vwapRows (highs lows closes volumes : List F) (sessionStarts : List Bool) : List (VwapRow F) :=
  scan (vwapStep highs lows closes volumes sessionStarts) ⟨lit 0, lit 0, lit 0⟩ (List.range closes.length)

def vwap (highs lows closes volumes : List F) (sessionStarts : List Bool) : VwapResult F :=
  let rows := vwapRows highs lows closes volumes sessionStarts
  ⟨rows.map (·.vwap), rows.map (·.upper1), rows.map (·.lower1), rows.map (·.upper2), rows.map (·.lower2)⟩

structure SuperTrendResult (F : Type) where
  upper : List F
  lower : List F
  trend : List ℤ

structure SuperTrendRow (F : Type) where
  upper : F
  lower : F
  trend : ℤ

/-- "Trend flip rules" -/
def flipTrend (prev : ℤ) (close up lo : F) : ℤ :=
  if prev = 1 ∧ lt close lo = true then -1
  else if prev = -1 ∧ lt up close = true then 1
  else if prev = 0 then if lt up close then 1 else if lt close lo then -1 else 0
  else prev

def supertrendStep (highs lows closes atrSeries : List F) (factor : F) (prev : SuperTrendRow F) (i : ℕ) :
    SuperTrendRow F :=
  if isNan (idx atrSeries i) then ⟨nan, nan, 0⟩
  else
    let mid := (idx highs i + idx lows i) / lit 2
    let up := mid + factor * idx atrSeries i
    let lo := mid - factor * idx atrSeries i
    let firm := 0 < i && !isNan prev.upper
    let up := if firm && lt prev.upper up && le (idx closes (i - 1)) prev.upper then prev.upper else up
    let lo := if firm && lt lo prev.lower && le prev.lower (idx closes (i - 1)) then prev.lower else lo
    ⟨up, lo, flipTrend prev.trend (idx closes i) up lo⟩

def supertrendRows (highs lows closes : List F) (period : ℕ) (factor : F) : List (SuperTrendRow F) :=
  let atrSeries := atr highs lows closes period
  scan (fun prev i =>
      let row := supertrendStep highs lows closes atrSeries factor prev i
      (row, row))
    ⟨nan, nan, 0⟩ (List.range closes.length)

def supertrend (highs lows closes : List F) (period : ℕ) (factor : F) : SuperTrendResult F :=
  let rows := supertrendRows highs lows closes period factor
  ⟨rows.map (·.upper), rows.map (·.lower), rows.map (·.trend)⟩

structure PsarResult (F : Type) where
  sar : List F
  trend : List ℤ

/-- Where the trend stands: its direction, the extreme point, the acceleration and the last dot. -/
structure PsarState (F : Type) where
  up : Bool
  ep : F
  af : F
  sar : F

def psarStart (highs lows : List F) (accStart : F) : PsarState F :=
  let up := lt (idx highs 0) (idx highs 1)
  ⟨up, if up then idx highs 1 else idx lows 1, accStart, if up then idx lows 0 else idx highs 0⟩

def psarStep (highs lows : List F) (accStart accStep accMax : F) (p : PsarState F) (i : ℕ) : PsarState F :=
  let s := p.sar + p.af * (p.ep - p.sar)
  if p.up then
    let s := Floating.min (Floating.min s (idx lows (i - 1))) (idx lows (i - 2))
    let further := lt p.ep (idx highs i)
    let ep := if further then idx highs i else p.ep
    let af := if further then Floating.min (p.af + accStep) accMax else p.af
    if lt (idx lows i) s then ⟨false, idx lows i, accStart, ep⟩ else ⟨true, ep, af, s⟩
  else
    let s := Floating.max (Floating.max s (idx highs (i - 1))) (idx highs (i - 2))
    let further := lt (idx lows i) p.ep
    let ep := if further then idx lows i else p.ep
    let af := if further then Floating.min (p.af + accStep) accMax else p.af
    if lt s (idx highs i) then ⟨true, idx highs i, accStart, ep⟩ else ⟨false, ep, af, s⟩

def direction (up : Bool) : ℤ := if up then 1 else -1

def psar (highs lows : List F) (accStart accStep accMax : F) : PsarResult F :=
  let n := min highs.length lows.length
  if n < 2 then ⟨List.replicate n nan, List.replicate n 0⟩
  else
    let start := psarStart highs lows accStart
    let states := start :: start :: scan
      (fun p i =>
        let p := psarStep highs lows accStart accStep accMax p i
        (p, p))
      start (List.range' 2 (n - 2))
    ⟨states.map (·.sar), states.map fun p => direction p.up⟩

/-! ## What they read -/

section reads
variable {α : Type} {f : List α → List F} {l : List α} {x : α} {i j period : ℕ}
  {highs lows closes volumes : List α → List F}

theorem causal_obv (hc : Causal closes) (hv : Causal volumes) : Causal fun l => obv (closes l) (volumes l) := by
  refine Causal.warm 0 (lit 0) (fun _ => lit 0) (fun _ => lit 0)
    (fun l prev i =>
      (if lt (idx (closes l) (i - 1)) (idx (closes l) i) then prev + idx (volumes l) i
        else if lt (idx (closes l) i) (idx (closes l) (i - 1)) then prev - idx (volumes l) i else prev,
      if lt (idx (closes l) (i - 1)) (idx (closes l) i) then prev + idx (volumes l) i
        else if lt (idx (closes l) i) (idx (closes l) (i - 1)) then prev - idx (volumes l) i else prev))
    ?_ ?_ (fun _ _ _ => rfl) (fun _ _ _ => rfl) ?_
  · intro l h
    have hzero : l.length = 0 := by omega
    simp [obv, hc.length, hzero]
  · intro l h
    have hne : l.length ≠ 0 := by omega
    simp [obv, hc.length, hne]
  · intro l x i s hi
    have hback : i - 1 < l.length := by omega
    simp only [idx_causal hc hi, idx_causal hc hback, idx_causal hv hi]

theorem causal_cvd (hh : Causal highs) (hl : Causal lows) (hc : Causal closes) (hv : Causal volumes) :
    Causal fun l => cvd (highs l) (lows l) (closes l) (volumes l) := by
  unfold cvd
  simp only [hc.length]
  refine Causal.loop_all _ fun l x i s hi => ?_
  simp only [idx_causal hh hi, idx_causal hl hi, idx_causal hc hi, idx_causal hv hi]

theorem causal_adLine (hh : Causal highs) (hl : Causal lows) (hc : Causal closes) (hv : Causal volumes) :
    Causal fun l => adLine (highs l) (lows l) (closes l) (volumes l) := by
  unfold adLine
  simp only [hc.length, hv.length, Nat.min_self]
  refine Causal.loop_all _ fun l x i s hi => ?_
  simp only [idx_causal hh hi, idx_causal hl hi, idx_causal hc hi, idx_causal hv hi]

/-- Sessions are marked for every bar, or for none. -/
def SessionsKnown (sessionStarts : List α → List Bool) : Prop :=
  Causal sessionStarts ∨ ∀ l, sessionStarts l = []

theorem causal_vwapRows {sessionStarts : List α → List Bool} (hh : Causal highs) (hl : Causal lows) (hc : Causal closes)
    (hv : Causal volumes) (hs : SessionsKnown sessionStarts) :
    Causal fun l => vwapRows (highs l) (lows l) (closes l) (volumes l) (sessionStarts l) := by
  unfold vwapRows
  simp only [hc.length]
  refine Causal.loop_all _ fun l x i s hi => ?_
  have hnew : (if (sessionStarts (l ++ [x])).isEmpty then i == 0 else (sessionStarts (l ++ [x])).getD i false) =
      if (sessionStarts l).isEmpty then i == 0 else (sessionStarts l).getD i false := by
    rcases hs with hs | hs
    · have hne : ∀ l : List α, i < l.length → (sessionStarts l).isEmpty = false := by
        intro l hi
        rw [List.isEmpty_eq_false_iff, ← List.length_pos_iff, hs.length]
        omega
      rw [hne l hi, hne (l ++ [x]) (by rw [List.length_append]; omega), hs.getD_append hi]
    · rw [hs, hs]
  simp only [vwapStep, hnew, idx_causal hh hi, idx_causal hl hi, idx_causal hc hi, idx_causal hv hi]

theorem causal_vwap {sessionStarts : List α → List Bool} (hh : Causal highs) (hl : Causal lows) (hc : Causal closes)
    (hv : Causal volumes) (hs : SessionsKnown sessionStarts) :
    Causal (fun l => (vwap (highs l) (lows l) (closes l) (volumes l) (sessionStarts l)).vwap) ∧
      Causal (fun l => (vwap (highs l) (lows l) (closes l) (volumes l) (sessionStarts l)).upper1) ∧
      Causal (fun l => (vwap (highs l) (lows l) (closes l) (volumes l) (sessionStarts l)).lower1) ∧
      Causal (fun l => (vwap (highs l) (lows l) (closes l) (volumes l) (sessionStarts l)).upper2) ∧
      Causal fun l => (vwap (highs l) (lows l) (closes l) (volumes l) (sessionStarts l)).lower2 := by
  have hrows := causal_vwapRows hh hl hc hv hs
  exact ⟨(Causal.map VwapRow.vwap).comp hrows, (Causal.map VwapRow.upper1).comp hrows,
    (Causal.map VwapRow.lower1).comp hrows, (Causal.map VwapRow.upper2).comp hrows,
    (Causal.map VwapRow.lower2).comp hrows⟩

theorem causal_supertrend (hh : Causal highs) (hl : Causal lows) (hc : Causal closes) (period : ℕ) (factor : F) :
    Causal (fun l => (supertrend (highs l) (lows l) (closes l) period factor).upper) ∧
      Causal (fun l => (supertrend (highs l) (lows l) (closes l) period factor).lower) ∧
      Causal fun l => (supertrend (highs l) (lows l) (closes l) period factor).trend := by
  have hatr := causal_atr hh hl hc period
  have hrows : Causal fun l => supertrendRows (highs l) (lows l) (closes l) period factor := by
    unfold supertrendRows
    simp only [hc.length]
    refine Causal.loop_all _ fun l x i s hi => ?_
    have hback : i - 1 < l.length := by omega
    simp only [supertrendStep, idx_causal hatr hi, idx_causal hh hi, idx_causal hl hi, idx_causal hc hi,
      idx_causal hc hback]
  exact ⟨(Causal.map SuperTrendRow.upper).comp hrows, (Causal.map SuperTrendRow.lower).comp hrows,
    (Causal.map SuperTrendRow.trend).comp hrows⟩

/-- The first dot waits for the second bar; from then on no dot changes. -/
theorem psar_grows (hh : Causal highs) (hl : Causal lows) (accStart accStep accMax : F) (h : 2 ≤ l.length) (x : α) :
    (psar (highs l) (lows l) accStart accStep accMax).sar <+:
        (psar (highs (l ++ [x])) (lows (l ++ [x])) accStart accStep accMax).sar ∧
      (psar (highs l) (lows l) accStart accStep accMax).trend <+:
        (psar (highs (l ++ [x])) (lows (l ++ [x])) accStart accStep accMax).trend := by
  have hstart : psarStart (highs (l ++ [x])) (lows (l ++ [x])) accStart = psarStart (highs l) (lows l) accStart := by
    have hzero : 0 < l.length := by omega
    have hone : 1 < l.length := by omega
    simp only [psarStart, idx_causal hh hzero, idx_causal hh hone, idx_causal hl hzero, idx_causal hl hone]
  unfold psar
  simp only [hh.length, hl.length, Nat.min_self, List.length_append, List.length_singleton]
  rw [if_neg (by omega), if_neg (by omega), hstart, show l.length + 1 - 2 = l.length - 2 + 1 by omega, List.range'_concat,
    scan_congr _ (fun p i =>
      (psarStep (highs (l ++ [x])) (lows (l ++ [x])) accStart accStep accMax p i,
        psarStep (highs (l ++ [x])) (lows (l ++ [x])) accStart accStep accMax p i))]
  · have hscan := scan_prefix (fun p i =>
      (psarStep (highs (l ++ [x])) (lows (l ++ [x])) accStart accStep accMax p i,
        psarStep (highs (l ++ [x])) (lows (l ++ [x])) accStart accStep accMax p i))
      (psarStart (highs l) (lows l) accStart) (List.range' 2 (l.length - 2)) [2 + (l.length - 2)]
    constructor
    · simpa using hscan.map PsarState.sar
    · simpa using hscan.map fun p => direction p.up
  · intro i hi p
    rw [List.mem_range'_1] at hi
    have hi₀ : i < l.length := by omega
    have hi₁ : i - 1 < l.length := by omega
    have hi₂ : i - 2 < l.length := by omega
    simp only [psarStep, idx_causal hh hi₀, idx_causal hh hi₁, idx_causal hh hi₂, idx_causal hl hi₀, idx_causal hl hi₁,
      idx_causal hl hi₂]

end reads

end Qtss.Indicators
