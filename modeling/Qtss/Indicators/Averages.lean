import Qtss.Lib.Causal
import Qtss.Lib.Floating
/-
# Averages and their bands (`qtss-indicators/src`)

| here | there |
| --- | --- |
| `ema`, `emaStep`, `sma` | ema.rs:6, :24, :31 |
| `atr`, `bbSqueeze` | volatility.rs:7, :26 |
| `macd`             | macd.rs:18; its slice from `slow - 1` on panics where there are fewer values (`none`) |
| `bollinger`        | bollinger.rs:18 |
| `keltner`, `chandelier`, `ttmSqueeze` | keltner.rs:17, chandelier.rs:16, ttm_squeeze.rs:13 |
| `scan`, `fillFrom` | the loops over the places |

No law of floats is used: the loops read what they read whatever the numbers are.
-/

namespace Qtss.Indicators
open Floating Causal

variable {F : Type} [Floating F]

/-- `values[i]`. All slices of a call have one length. -/
def idx (values : List F) (i : ℕ) : F := values.getD i nan

structure Bar (F : Type) where
  high : F
  low : F
  close : F
  volume : F
  sessionStart : Bool

def ema (values : List F) (period : ℕ) : List F :=
  let n := values.length
  if period = 0 ∨ n < period then List.replicate n nan
  else
    let k : F := lit 2 / (lit period + lit 1)
    let sma := sum (values.take period) / lit period
    List.replicate (period - 1) nan ++ sma :: scan
      (fun prev i =>
        let e := idx values i * k + prev * (lit 1 - k)
        (e, e))
      sma (List.range' period (n - period))

def emaStep (prevEma value : F) (period : ℕ) : F :=
  let k : F := lit 2 / (lit period + lit 1)
  value * k + prevEma * (lit 1 - k)

/-- The sum of the window is carried from bar to bar. -/
def sma (values : List F) (period : ℕ) : List F :=
  let n := values.length
  if period = 0 ∨ n < period then List.replicate n nan
  else
    let total := sum (values.take period)
    List.replicate (period - 1) nan ++ total / lit period :: scan
      (fun total i =>
        let total := total + (idx values i - idx values (i - period))
        (total, total / lit period))
      total (List.range' period (n - period))

def trueRange (highs lows closes : List F) (i : ℕ) : F :=
  if i = 0 then idx highs 0 - idx lows 0
  else
    let hl := idx highs i - idx lows i
    let hc := Floating.abs (idx highs i - idx closes (i - 1))
    let lc := Floating.abs (idx lows i - idx closes (i - 1))
    Floating.max (Floating.max hl hc) lc

def atr (highs lows closes : List F) (period : ℕ) : List F :=
  sma ((List.range closes.length).map (trueRange highs lows closes)) period

def bbSqueeze (bandwidths : List F) (threshold : F) : List Bool :=
  bandwidths.map fun bw => !isNan bw && lt bw threshold

structure MacdResult (F : Type) where
  macdLine : List F
  signalLine : List F
  histogram : List F

def macdLine (values : List F) (fast slow : ℕ) : List F :=
  let emaFast := ema values fast
  let emaSlow := ema values slow
  (List.range values.length).map fun i =>
    if isNan (idx emaFast i) || isNan (idx emaSlow i) then nan else idx emaFast i - idx emaSlow i

def macd (values : List F) (fast slow signalPeriod : ℕ) : Option (MacdResult F) :=
  let n := values.length
  let line := macdLine values fast slow
  let validStart := slow - 1
  if n < validStart then none
  else
    let signalLine := List.replicate validStart nan ++ ema (line.drop validStart) signalPeriod
    let histogram := (List.range n).map fun i =>
      if !isNan (idx line i) && !isNan (idx signalLine i) then idx line i - idx signalLine i else nan
    some ⟨line, signalLine, histogram⟩

structure BollingerResult (F : Type) where
  upper : List F
  middle : List F
  lower : List F
  percentB : List F
  bandwidth : List F

structure BollingerRow (F : Type) where
  upper : F
  lower : F
  percentB : F
  bandwidth : F

/-- The bands at a bar. -/
def bollingerRow (values mid : List F) (period : ℕ) (mult : F) (i : ℕ) : BollingerRow F :=
  if isNan (idx mid i) then ⟨nan, nan, nan, nan⟩
  else
    let slice := (values.drop (i + 1 - period)).take period
    let mean := idx mid i
    let variance := sum (slice.map fun v => (v - mean) * (v - mean)) / lit period
    let sd := sqrt variance
    let upper := mean + mult * sd
    let lower := mean - mult * sd
    let bw := upper - lower
    if lt (lit (1 / 10 ^ 15)) (Floating.abs bw) then ⟨upper, lower, (idx values i - lower) / bw, bw / mean⟩
    else ⟨upper, lower, nan, nan⟩

def bollinger (values : List F) (period : ℕ) (mult : F) : BollingerResult F :=
  let mid := sma values period
  let rows := fillFrom ⟨nan, nan, nan, nan⟩ (period - 1) values.length (bollingerRow values mid period mult)
  ⟨rows.map (·.upper), mid, rows.map (·.lower), rows.map (·.percentB), rows.map (·.bandwidth)⟩

structure Keltner (F : Type) where
  upper : List F
  mid : List F
  lower : List F

def keltner (highs lows closes : List F) (emaPeriod atrPeriod : ℕ) (mult : F) : Keltner F :=
  let mid := ema closes emaPeriod
  let atrSeries := atr highs lows closes atrPeriod
  let band (op : F → F → F) := (List.range closes.length).map fun i =>
    if !isNan (idx mid i) && !isNan (idx atrSeries i) then op (idx mid i) (mult * idx atrSeries i) else nan
  ⟨band (· + ·), mid, band (· - ·)⟩

/-- The highest of the last `period` values: `hh` starts at minus infinity. -/
def highest (highs : List F) (period i : ℕ) : F :=
  (List.range' (i + 1 - period) period).foldl (fun hh j => if lt hh (idx highs j) then idx highs j else hh) negInfinity

def lowest (lows : List F) (period i : ℕ) : F :=
  (List.range' (i + 1 - period) period).foldl (fun ll j => if lt (idx lows j) ll then idx lows j else ll) infinity

structure Chandelier (F : Type) where
  longExit : List F
  shortExit : List F

def chandelier (highs lows closes : List F) (period : ℕ) (mult : F) : Chandelier F :=
  let n := closes.length
  let atrSeries := atr highs lows closes period
  if period = 0 ∨ n < period then ⟨List.replicate n nan, List.replicate n nan⟩
  else
    let exit (entry : ℕ → F) := fillFrom nan (period - 1) n fun i => if isNan (idx atrSeries i) then nan else entry i
    ⟨exit fun i => highest highs period i - mult * idx atrSeries i,
      exit fun i => lowest lows period i + mult * idx atrSeries i⟩

/-- The Bollinger bands lie inside the Keltner channel. -/
def ttmSqueeze (highs lows closes : List F) (bbPeriod : ℕ) (bbStdev : F) (kcPeriod kcAtrPeriod : ℕ) (kcMult : F) :
    List Bool :=
  let bb := bollinger closes bbPeriod bbStdev
  let kc := keltner highs lows closes kcPeriod kcAtrPeriod kcMult
  (List.range closes.length).map fun i =>
    if isNan (idx bb.upper i) || isNan (idx kc.upper i) then false
    else lt (idx bb.upper i) (idx kc.upper i) && lt (idx kc.lower i) (idx bb.lower i)

/-! ## What they read -/

section reads
variable {α : Type} {f : List α → List F} {l : List α} {x : α} {i j period : ℕ}

theorem idx_causal (hf : Causal f) (hi : i < l.length) (x : α) : idx (f (l ++ [x])) i = idx (f l) i :=
  hf.getD_append hi x nan

theorem ema_short {values : List F} (h : values.length ≤ period - 1) :
    ema values period = List.replicate values.length nan := by
  unfold ema
  simp only
  rw [if_pos (by omega)]

theorem sma_short {values : List F} (h : values.length ≤ period - 1) :
    sma values period = List.replicate values.length nan := by
  unfold sma
  simp only
  rw [if_pos (by omega)]

theorem idx_append {values : List F} {x : F} (h : i < values.length) : idx (values ++ [x]) i = idx values i :=
  List.getD_append _ _ _ _ h

theorem causal_ema (period : ℕ) : Causal fun values : List F => ema values period := by
  cases period with
  | zero => simpa [ema] using Causal.replicate (α := F) (nan : F)
  | succ p =>
    refine Causal.warm p nan (fun values => sum (values.take (p + 1)) / lit (p + 1 : ℕ))
      (fun values => sum (values.take (p + 1)) / lit (p + 1 : ℕ))
      (fun values prev i =>
        (idx values i * (lit 2 / (lit (p + 1 : ℕ) + lit 1)) + prev * (lit 1 - lit 2 / (lit (p + 1 : ℕ) + lit 1)),
          idx values i * (lit 2 / (lit (p + 1 : ℕ) + lit 1)) + prev * (lit 1 - lit 2 / (lit (p + 1 : ℕ) + lit 1))))
      (fun values h => ema_short h) ?_ ?_ ?_ ?_
    · intro values h
      unfold ema
      simp only
      rw [if_neg (by omega), Nat.add_sub_cancel]
    · intro values x h
      rw [List.take_append_of_le_length h]
    · intro values x h
      rw [List.take_append_of_le_length h]
    · intro values x i s h
      simp only [idx_append h]

theorem causal_sma (period : ℕ) : Causal fun values : List F => sma values period := by
  cases period with
  | zero => simpa [sma] using Causal.replicate (α := F) (nan : F)
  | succ p =>
    refine Causal.warm p nan (fun values => sum (values.take (p + 1)) / lit (p + 1 : ℕ))
      (fun values => sum (values.take (p + 1)))
      (fun values total i =>
        (total + (idx values i - idx values (i - (p + 1))),
          (total + (idx values i - idx values (i - (p + 1)))) / lit (p + 1 : ℕ)))
      (fun values h => sma_short h) ?_ ?_ ?_ ?_
    · intro values h
      unfold sma
      simp only
      rw [if_neg (by omega), Nat.add_sub_cancel]
    · intro values x h
      rw [List.take_append_of_le_length h]
    · intro values x h
      rw [List.take_append_of_le_length h]
    · intro values x i s h
      have hback : i - (p + 1) < values.length := by omega
      simp only [idx_append h, idx_append hback]

-- what comes in bar by bar: the highs, lows and closes of the bars
variable {highs lows closes : List α → List F}

theorem causal_trueRange (hh : Causal highs) (hl : Causal lows) (hc : Causal closes) :
    Causal fun l => (List.range (closes l).length).map (trueRange (highs l) (lows l) (closes l)) := by
  simp only [hc.length]
  refine Causal.tabulate fun l x i hi => ?_
  have hback : i - 1 < l.length := by omega
  have hzero : 0 < l.length := by omega
  simp only [trueRange, idx_causal hh hi, idx_causal hl hi, idx_causal hc hback, idx_causal hh hzero,
    idx_causal hl hzero]

theorem causal_atr (hh : Causal highs) (hl : Causal lows) (hc : Causal closes) (period : ℕ) :
    Causal fun l => atr (highs l) (lows l) (closes l) period :=
  (causal_sma period).comp (causal_trueRange hh hl hc)

theorem causal_macdLine (hc : Causal closes) (fast slow : ℕ) : Causal fun l => macdLine (closes l) fast slow := by
  have hfast := (causal_ema fast).comp hc
  have hslow := (causal_ema slow).comp hc
  unfold macdLine
  simp only [hc.length]
  refine Causal.tabulate fun l x i hi => ?_
  simp only [idx_causal hfast hi, idx_causal hslow hi]

/-- The signal line, also where there are too few values for it. -/
def signalLine (line : List F) (slow signalPeriod : ℕ) : List F :=
  List.replicate (min (slow - 1) line.length) nan ++ ema (line.drop (slow - 1)) signalPeriod

theorem causal_signalLine (hc : Causal closes) (fast slow signalPeriod : ℕ) :
    Causal fun l => signalLine (macdLine (closes l) fast slow) slow signalPeriod := by
  have hline := causal_macdLine hc fast slow
  unfold signalLine
  simp only [hline.length]
  exact Causal.late nan (slow - 1) (causal_ema signalPeriod) hline

/-- The series that `macd` has where it does not panic. -/
def macdSeries (values : List F) (fast slow signalPeriod : ℕ) : MacdResult F :=
  let line := macdLine values fast slow
  let signal := signalLine line slow signalPeriod
  ⟨line, signal, (List.range values.length).map fun i =>
    if !isNan (idx line i) && !isNan (idx signal i) then idx line i - idx signal i else nan⟩

theorem macd_eq (values : List F) (fast slow signalPeriod : ℕ) :
    macd values fast slow signalPeriod =
      if values.length < slow - 1 then none else some (macdSeries values fast slow signalPeriod) := by
  have hlength : (macdLine values fast slow).length = values.length := by simp [macdLine]
  unfold macd macdSeries signalLine
  simp only [hlength]
  split
  · rfl
  · next h => rw [Nat.min_eq_left (by omega)]

theorem causal_histogram (hc : Causal closes) (fast slow signalPeriod : ℕ) :
    Causal fun l => (macdSeries (closes l) fast slow signalPeriod).histogram := by
  have hline := causal_macdLine hc fast slow
  have hsignal := causal_signalLine hc fast slow signalPeriod
  unfold macdSeries
  simp only [hc.length]
  refine Causal.tabulate fun l x i hi => ?_
  simp only [idx_causal hline hi, idx_causal hsignal hi]

/-- Where `macd` does not panic. -/
theorem causal_macd (hc : Causal closes) {fast slow signalPeriod : ℕ} {r : MacdResult F}
    (hr : macd (closes l) fast slow signalPeriod = some r) (more : List α) :
    ∃ r', macd (closes (l ++ more)) fast slow signalPeriod = some r' ∧ r.macdLine <+: r'.macdLine ∧
      r.signalLine <+: r'.signalLine ∧ r.histogram <+: r'.histogram := by
  rw [macd_eq, hc.length] at hr
  rw [macd_eq, hc.length, List.length_append]
  split at hr
  · cases hr
  · next hlong =>
    obtain rfl := Option.some.inj hr
    rw [if_neg (by omega)]
    exact ⟨_, rfl, (causal_macdLine hc fast slow).prefix_append l more,
      (causal_signalLine hc fast slow signalPeriod).prefix_append l more,
      (causal_histogram hc fast slow signalPeriod).prefix_append l more⟩

omit [Floating F] in
/-- A slice that ends at a bar. -/
theorem slice_causal {s : ℕ} (hf : Causal f) (hend : s + period ≤ l.length) (x : α) :
    ((f (l ++ [x])).drop s).take period = ((f l).drop s).take period := by
  have hlength := hf.length l
  obtain ⟨r, hr⟩ := hf.grows l x
  rw [← hr, List.drop_append_of_le_length (by omega), List.take_append_of_le_length (by rw [List.length_drop]; omega)]

theorem causal_bollingerRow (hc : Causal closes) (period : ℕ) (mult : F) :
    Causal fun l => fillFrom ⟨nan, nan, nan, nan⟩ (period - 1) (closes l).length
      (bollingerRow (closes l) (sma (closes l) period) period mult) := by
  have hmid := (causal_sma period).comp hc
  simp only [hc.length]
  refine Causal.windows _ _ fun l x i hw hi => ?_
  have hend : i + 1 - period + period ≤ l.length := by omega
  simp only [bollingerRow, idx_causal hmid hi, idx_causal hc hi, slice_causal hc hend]

theorem causal_keltner (hh : Causal highs) (hl : Causal lows) (hc : Causal closes) (emaPeriod atrPeriod : ℕ) (mult : F) :
    Causal (fun l => (keltner (highs l) (lows l) (closes l) emaPeriod atrPeriod mult).upper) ∧
      Causal (fun l => (keltner (highs l) (lows l) (closes l) emaPeriod atrPeriod mult).mid) ∧
      Causal fun l => (keltner (highs l) (lows l) (closes l) emaPeriod atrPeriod mult).lower := by
  have hmid := (causal_ema emaPeriod).comp hc
  have hatr := causal_atr hh hl hc atrPeriod
  unfold keltner
  simp only [hc.length]
  refine ⟨Causal.tabulate fun l x i hi => ?_, hmid, Causal.tabulate fun l x i hi => ?_⟩ <;>
    simp only [idx_causal hmid hi, idx_causal hatr hi]

theorem causal_bollinger (hc : Causal closes) (period : ℕ) (mult : F) :
    Causal (fun l => (bollinger (closes l) period mult).upper) ∧
      Causal (fun l => (bollinger (closes l) period mult).middle) ∧
      Causal (fun l => (bollinger (closes l) period mult).lower) ∧
      Causal (fun l => (bollinger (closes l) period mult).percentB) ∧
      Causal fun l => (bollinger (closes l) period mult).bandwidth := by
  have hrows := causal_bollingerRow hc period mult
  exact ⟨(Causal.map BollingerRow.upper).comp hrows, (causal_sma period).comp hc,
    (Causal.map BollingerRow.lower).comp hrows, (Causal.map BollingerRow.percentB).comp hrows,
    (Causal.map BollingerRow.bandwidth).comp hrows⟩

/-- A loop over the window of a bar. -/
theorem foldl_window {σ : Type} (op : σ → F → σ) (hf : Causal f) (hw : period - 1 ≤ i) (hi : i < l.length) (x : α) (s : σ) :
    (List.range' (i + 1 - period) period).foldl (fun s j => op s (idx (f (l ++ [x])) j)) s =
      (List.range' (i + 1 - period) period).foldl (fun s j => op s (idx (f l) j)) s := by
  refine List.foldl_ext _ _ s fun s j hj => ?_
  rw [List.mem_range'_1] at hj
  rw [idx_causal hf (by omega)]

theorem highest_causal (hh : Causal highs) (hw : period - 1 ≤ i) (hi : i < l.length) (x : α) :
    highest (highs (l ++ [x])) period i = highest (highs l) period i :=
  foldl_window (fun hh v => if lt hh v then v else hh) hh hw hi x _

theorem lowest_causal (hl : Causal lows) (hw : period - 1 ≤ i) (hi : i < l.length) (x : α) :
    lowest (lows (l ++ [x])) period i = lowest (lows l) period i :=
  foldl_window (fun ll v => if lt v ll then v else ll) hl hw hi x _

/-- The guard against short series leaves what the loop would leave. -/
theorem guard_fillFrom {β : Type} (fill : β) (n : ℕ) (entry : ℕ → β) :
    (if period = 0 ∨ n < period then List.replicate n fill else fillFrom fill (period - 1) n entry) =
      if period = 0 then List.replicate n fill else fillFrom fill (period - 1) n entry := by
  by_cases hp : period = 0
  · simp [hp]
  · by_cases hn : n < period
    · rw [if_pos (.inr hn), if_neg hp, fillFrom_short (by omega)]
    · rw [if_neg (by omega), if_neg hp]

/-- A loop over the windows of the bars, with the guard. -/
theorem causal_guarded {β : Type} {entry : List α → ℕ → β} (fill : β)
    (hentry : ∀ l x i, period - 1 ≤ i → i < l.length → entry (l ++ [x]) i = entry l i) :
    Causal fun l => if period = 0 ∨ l.length < period then List.replicate l.length fill
      else fillFrom fill (period - 1) l.length (entry l) := by
  simp only [guard_fillFrom]
  by_cases hp : period = 0
  · simpa only [if_pos hp] using Causal.replicate fill
  · simpa only [if_neg hp] using Causal.windows fill (period - 1) hentry

theorem causal_chandelier (hh : Causal highs) (hl : Causal lows) (hc : Causal closes) (period : ℕ) (mult : F) :
    Causal (fun l => (chandelier (highs l) (lows l) (closes l) period mult).longExit) ∧
      Causal fun l => (chandelier (highs l) (lows l) (closes l) period mult).shortExit := by
  have hatr := causal_atr hh hl hc period
  unfold chandelier
  simp only [hc.length, apply_ite Chandelier.longExit, apply_ite Chandelier.shortExit]
  constructor
  · refine causal_guarded nan fun l x i hw hi => ?_
    simp only [idx_causal hatr hi, highest_causal hh hw hi]
  · refine causal_guarded nan fun l x i hw hi => ?_
    simp only [idx_causal hatr hi, lowest_causal hl hw hi]

theorem causal_ttmSqueeze (hh : Causal highs) (hl : Causal lows) (hc : Causal closes) (bbPeriod : ℕ) (bbStdev : F)
    (kcPeriod kcAtrPeriod : ℕ) (kcMult : F) : Causal fun l =>
      ttmSqueeze (highs l) (lows l) (closes l) bbPeriod bbStdev kcPeriod kcAtrPeriod kcMult := by
  obtain ⟨hupper, -, hlower, -⟩ := causal_bollinger hc bbPeriod bbStdev
  obtain ⟨hkcUpper, -, hkcLower⟩ := causal_keltner hh hl hc kcPeriod kcAtrPeriod kcMult
  unfold ttmSqueeze
  simp only [hc.length]
  refine Causal.tabulate fun l x i hi => ?_
  simp only [idx_causal hupper hi, idx_causal hlower hi, idx_causal hkcUpper hi, idx_causal hkcLower hi]

end reads

end Qtss.Indicators
