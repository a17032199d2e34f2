import Qtss.Indicators.Averages
/-
# Oscillators and channels over windows (`qtss-indicators/src`)

| here | there |
| --- | --- |
| `donchian`, `williamsR` | donchian.rs:13, williams_r.rs:7 |
| `donchianMid`, `ichimoku` | ichimoku.rs:21, :42; `chikou` is the close of a later bar |
| `stochastic`       | stochastic.rs:15 |
| `cmf`, `mfi`       | cmf.rs:6, mfi.rs:6 |
| `aroon`            | aroon.rs:14 |
-/

namespace Qtss.Indicators
open Floating Causal

variable {F : Type} [Floating F]

structure Donchian (F : Type) where
  upper : List F
  lower : List F
  mid : List F

def donchian (highs lows : List F) (period : ℕ) : Donchian F :=
  let n := min highs.length lows.length
  let channel (entry : ℕ → F) := if period = 0 ∨ n < period then List.replicate n nan else fillFrom nan (period - 1) n entry
  ⟨channel (highest highs period), channel (lowest lows period),
    channel fun i => (highest highs period i + lowest lows period i) / lit 2⟩

def donchianMid (highs lows : List F) (n period : ℕ) : List F :=
  if period = 0 ∨ n < period then List.replicate n nan
  else fillFrom nan (period - 1) n fun i => (highest highs period i + lowest lows period i) / lit 2

structure Ichimoku (F : Type) where
  tenkan : List F
  kijun : List F
  senkouA : List F
  senkouB : List F
  chikou : List F

def ichimoku (highs lows closes : List F) (tenkanP kijunP senkouBP shift : ℕ) : Ichimoku F :=
  let n := closes.length
  let tenkan := donchianMid highs lows n tenkanP
  let kijun := donchianMid highs lows n kijunP
  let senkouA := fillFrom nan shift n fun i =>
    if !isNan (idx tenkan (i - shift)) && !isNan (idx kijun (i - shift))
    then (idx tenkan (i - shift) + idx kijun (i - shift)) / lit 2 else nan
  let senBBase := donchianMid highs lows n senkouBP
  let senkouB := fillFrom nan shift n fun i =>
    if !isNan (idx senBBase (i - shift)) then idx senBBase (i - shift) else nan
  let chikou := (List.range n).map fun i => if i + shift < n then idx closes (i + shift) else nan
  ⟨tenkan, kijun, senkouA, senkouB, chikou⟩

structure StochasticResult (F : Type) where
  k : List F
  d : List F

def stochasticK (highs lows closes : List F) (kPeriod i : ℕ) : F :=
  let hh := ((highs.drop (i + 1 - kPeriod)).take kPeriod).foldl Floating.max negInfinity
  let ll := ((lows.drop (i + 1 - kPeriod)).take kPeriod).foldl Floating.min infinity
  let range := hh - ll
  if lt (Floating.abs range) (lit (1 / 10 ^ 15)) then lit 50 else (idx closes i - ll) / range * lit 100

/-- The smoothed line is the average of the whole line, with the entries that are no numbers. -/
def stochastic (highs lows closes : List F) (kPeriod dPeriod : ℕ) : StochasticResult F :=
  let n := closes.length
  if kPeriod = 0 ∨ n < kPeriod then ⟨List.replicate n nan, List.replicate n nan⟩
  else
    let k := fillFrom nan (kPeriod - 1) n (stochasticK highs lows closes kPeriod)
    ⟨k, sma (k.map fun v => if isNan v then nan else v) dPeriod⟩

def williamsR (highs lows closes : List F) (period : ℕ) : List F :=
  let n := min (min closes.length highs.length) lows.length
  if period = 0 ∨ n < period then List.replicate n nan
  else fillFrom nan (period - 1) n fun i =>
    let hh := highest highs period i
    let range := hh - lowest lows period i
    if lt (lit 0) range then lit (-100) * (hh - idx closes i) / range else lit 0

/-- The part of the volume that the place of the close in the range of the bar stands for. -/
def moneyFlowVolume (highs lows closes volumes : List F) (i : ℕ) : F :=
  let range := idx highs i - idx lows i
  if lt (lit 0) range then
    idx volumes i * (((idx closes i - idx lows i) - (idx highs i - idx closes i)) / range)
  else lit 0

def cmf (highs lows closes volumes : List F) (period : ℕ) : List F :=
  let n := min closes.length volumes.length
  if period = 0 ∨ n < period then List.replicate n nan
  else
    let mfv := (List.range n).map (moneyFlowVolume highs lows closes volumes)
    fillFrom nan (period - 1) n fun i =>
      let window := List.range' (i + 1 - period) period
      let mfvSum := window.foldl (fun acc j => acc + idx mfv j) (lit 0)
      let volSum := window.foldl (fun acc j => acc + idx volumes j) (lit 0)
      if lt (lit 0) volSum then mfvSum / volSum else lit 0

/-- What a bar of the window adds to the flows up and down. -/
def moneyFlow (tp volumes : List F) (flows : F × F) (j : ℕ) : F × F :=
  let mf := idx tp j * idx volumes j
  if 0 < j && lt (idx tp (j - 1)) (idx tp j) then (flows.1 + mf, flows.2)
  else if 0 < j && lt (idx tp j) (idx tp (j - 1)) then (flows.1, flows.2 + mf)
  else flows

def typicalPrices (highs lows closes : List F) : List F :=
  (List.range closes.length).map fun i => (idx highs i + idx lows i + idx closes i) / lit 3

def mfi (highs lows closes volumes : List F) (period : ℕ) : List F :=
  let n := closes.length
  if period = 0 ∨ n ≤ period then List.replicate n nan
  else
    let tp := typicalPrices highs lows closes
    fillFrom nan period n fun i =>
      let (pos, neg) := (List.range' (i + 1 - period) period).foldl (moneyFlow tp volumes) (lit 0, lit 0)
      if lt (Floating.abs neg) (lit (1 / 10 ^ 15)) then lit 100 else lit 100 - lit 100 / (lit 1 + pos / neg)

structure AroonResult (F : Type) where
  up : List F
  down : List F
  osc : List F

/-- The last place of the highest value of the window. -/
def lastHighest (highs : List F) (period i : ℕ) : ℕ :=
  (List.range' (i - period) (period + 1)).foldl
    (fun hiIdx j => if le (idx highs hiIdx) (idx highs j) then j else hiIdx) (i - period)

def lastLowest (lows : List F) (period i : ℕ) : ℕ :=
  (List.range' (i - period) (period + 1)).foldl
    (fun loIdx j => if le (idx lows j) (idx lows loIdx) then j else loIdx) (i - period)

def aroonLine (period since : ℕ) : F := lit 100 * (lit period - lit since) / lit period

def aroon (highs lows : List F) (period : ℕ) : AroonResult F :=
  let n := min highs.length lows.length
  let line (entry : ℕ → F) := if period = 0 ∨ n ≤ period then List.replicate n nan else fillFrom nan period n entry
  let up (i : ℕ) : F := aroonLine period (i - lastHighest highs period i)
  let down (i : ℕ) : F := aroonLine period (i - lastLowest lows period i)
  ⟨line up, line down, line fun i => up i - down i⟩

/-! ## What they read -/

section reads
variable {α : Type} {f : List α → List F} {l : List α} {x : α} {i j period : ℕ}
  {highs lows closes volumes : List α → List F}

theorem causal_donchian (hh : Causal highs) (hl : Causal lows) (period : ℕ) :
    Causal (fun l => (donchian (highs l) (lows l) period).upper) ∧
      Causal (fun l => (donchian (highs l) (lows l) period).lower) ∧
      Causal fun l => (donchian (highs l) (lows l) period).mid := by
  unfold donchian
  simp only [hh.length, hl.length, Nat.min_self]
  refine ⟨causal_guarded nan fun l x i hw hi => ?_, causal_guarded nan fun l x i hw hi => ?_,
    causal_guarded nan fun l x i hw hi => ?_⟩
  · rw [highest_causal hh hw hi]
  · rw [lowest_causal hl hw hi]
  · rw [highest_causal hh hw hi, lowest_causal hl hw hi]

theorem causal_donchianMid (hh : Causal highs) (hl : Causal lows) (period : ℕ) :
    Causal fun l => donchianMid (highs l) (lows l) l.length period := by
  refine causal_guarded nan fun l x i hw hi => ?_
  rw [highest_causal hh hw hi, lowest_causal hl hw hi]

/-- The lines of the cloud, which are drawn later than they are known. (`chikou` is the other way round.) -/
theorem causal_ichimoku (hh : Causal highs) (hl : Causal lows) (hc : Causal closes) (tenkanP kijunP senkouBP shift : ℕ) :
    Causal (fun l => (ichimoku (highs l) (lows l) (closes l) tenkanP kijunP senkouBP shift).tenkan) ∧
      Causal (fun l => (ichimoku (highs l) (lows l) (closes l) tenkanP kijunP senkouBP shift).kijun) ∧
      Causal (fun l => (ichimoku (highs l) (lows l) (closes l) tenkanP kijunP senkouBP shift).senkouA) ∧
      Causal fun l => (ichimoku (highs l) (lows l) (closes l) tenkanP kijunP senkouBP shift).senkouB := by
  have htenkan := causal_donchianMid hh hl tenkanP
  have hkijun := causal_donchianMid hh hl kijunP
  have hbase := causal_donchianMid hh hl senkouBP
  unfold ichimoku
  simp only [hc.length]
  refine ⟨htenkan, hkijun, Causal.windows nan shift fun l x i hw hi => ?_, Causal.windows nan shift fun l x i hw hi => ?_⟩
  · have hback : i - shift < l.length := by omega
    simp only [idx_causal htenkan hback, idx_causal hkijun hback]
  · have hback : i - shift < l.length := by omega
    simp only [idx_causal hbase hback]

theorem causal_stochasticK (hh : Causal highs) (hl : Causal lows) (hc : Causal closes) (kPeriod dPeriod : ℕ) :
    Causal fun l => (stochastic (highs l) (lows l) (closes l) kPeriod dPeriod).k := by
  unfold stochastic
  simp only [hc.length, apply_ite StochasticResult.k]
  refine causal_guarded nan fun l x i hw hi => ?_
  by_cases hk : kPeriod = 0
  · subst hk
    simp [stochasticK, idx_causal hc hi]
  · have hend : i + 1 - kPeriod + kPeriod ≤ l.length := by omega
    simp only [stochasticK, idx_causal hc hi, slice_causal hh hend, slice_causal hl hend]

theorem causal_williamsR (hh : Causal highs) (hl : Causal lows) (hc : Causal closes) (period : ℕ) :
    Causal fun l => williamsR (highs l) (lows l) (closes l) period := by
  unfold williamsR
  simp only [hc.length, hh.length, hl.length, Nat.min_self]
  refine causal_guarded nan fun l x i hw hi => ?_
  simp only [highest_causal hh hw hi, lowest_causal hl hw hi, idx_causal hc hi]

theorem causal_moneyFlowVolume (hh : Causal highs) (hl : Causal lows) (hc : Causal closes) (hv : Causal volumes) :
    Causal fun l => (List.range l.length).map (moneyFlowVolume (highs l) (lows l) (closes l) (volumes l)) := by
  refine Causal.tabulate fun l x i hi => ?_
  simp only [moneyFlowVolume, idx_causal hh hi, idx_causal hl hi, idx_causal hc hi, idx_causal hv hi]

theorem causal_cmf (hh : Causal highs) (hl : Causal lows) (hc : Causal closes) (hv : Causal volumes) (period : ℕ) :
    Causal fun l => cmf (highs l) (lows l) (closes l) (volumes l) period := by
  have hmfv := causal_moneyFlowVolume hh hl hc hv
  unfold cmf
  simp only [hc.length, hv.length, Nat.min_self]
  refine causal_guarded nan fun l x i hw hi => ?_
  simp only [foldl_window (· + ·) hmfv hw hi, foldl_window (· + ·) hv hw hi]

theorem causal_typicalPrices (hh : Causal highs) (hl : Causal lows) (hc : Causal closes) :
    Causal fun l => typicalPrices (highs l) (lows l) (closes l) := by
  unfold typicalPrices
  simp only [hc.length]
  refine Causal.tabulate fun l x i hi => ?_
  simp only [idx_causal hh hi, idx_causal hl hi, idx_causal hc hi]

/-- The guard of the indicators that look one bar further back. -/
theorem causal_guarded_succ {β : Type} {entry : List α → ℕ → β} (fill : β)
    (hentry : ∀ l x i, period ≤ i → i < l.length → entry (l ++ [x]) i = entry l i) :
    Causal fun l => if period = 0 ∨ l.length ≤ period then List.replicate l.length fill
      else fillFrom fill period l.length (entry l) := by
  by_cases hp : period = 0
  · simpa [hp] using Causal.replicate fill
  · have hguard : ∀ l : List α, (if period = 0 ∨ l.length ≤ period then List.replicate l.length fill
        else fillFrom fill period l.length (entry l)) = fillFrom fill period l.length (entry l) := by
      intro l
      split
      · next h => rw [fillFrom_short (by omega)]
      · rfl
    simpa only [hguard] using Causal.windows fill period hentry

theorem causal_mfi (hh : Causal highs) (hl : Causal lows) (hc : Causal closes) (hv : Causal volumes) (period : ℕ) :
    Causal fun l => mfi (highs l) (lows l) (closes l) (volumes l) period := by
  have htp := causal_typicalPrices hh hl hc
  unfold mfi
  simp only [hc.length]
  refine causal_guarded_succ nan fun l x i hw hi => ?_
  have hfold : (List.range' (i + 1 - period) period).foldl
      (moneyFlow (typicalPrices (highs (l ++ [x])) (lows (l ++ [x])) (closes (l ++ [x]))) (volumes (l ++ [x]))) (lit 0, lit 0)
      = (List.range' (i + 1 - period) period).foldl
        (moneyFlow (typicalPrices (highs l) (lows l) (closes l)) (volumes l)) (lit 0, lit 0) := by
    refine List.foldl_ext _ _ _ fun s j hj => ?_
    rw [List.mem_range'_1] at hj
    have hj' : j < l.length := by omega
    have hback : j - 1 < l.length := by omega
    simp only [moneyFlow, idx_causal htp hj', idx_causal htp hback, idx_causal hv hj']
  simp only [hfold]

/-- A search over the window of a bar ends at a place in it. -/
theorem search_mem (better : ℕ → ℕ → Bool) (hw : period ≤ i) :
    i - period ≤ (List.range' (i - period) (period + 1)).foldl (fun best j => if better best j then j else best) (i - period) ∧
      (List.range' (i - period) (period + 1)).foldl (fun best j => if better best j then j else best) (i - period) ≤ i := by
  refine List.foldlRecOn (motive := fun best => i - period ≤ best ∧ best ≤ i) _ _ ⟨le_rfl, by omega⟩ fun best hbest j hj => ?_
  rw [List.mem_range'_1] at hj
  split
  · omega
  · exact hbest

/-- It compares entries of the window only. -/
theorem search_congr {better better' : ℕ → ℕ → Bool} (hw : period ≤ i)
    (h : ∀ best j, best ≤ i → j ≤ i → better best j = better' best j) :
    (List.range' (i - period) (period + 1)).foldl (fun best j => if better best j then j else best) (i - period) =
      (List.range' (i - period) (period + 1)).foldl (fun best j => if better' best j then j else best) (i - period) := by
  have hall : ∀ js : List ℕ, (∀ j ∈ js, j ≤ i) → ∀ best, best ≤ i →
      js.foldl (fun best j => if better best j then j else best) best =
        js.foldl (fun best j => if better' best j then j else best) best := by
    intro js
    induction js with
    | nil => intro _ best _; rfl
    | cons j js ih =>
      intro hjs best hbest
      have hj : j ≤ i := hjs j (by simp)
      rw [List.foldl_cons, List.foldl_cons, h best j hbest hj]
      refine ih (fun k hk => hjs k (by simp [hk])) _ ?_
      split
      · exact hj
      · exact hbest
  refine hall _ (fun j hj => ?_) _ (by omega)
  rw [List.mem_range'_1] at hj
  omega

theorem causal_aroon (hh : Causal highs) (hl : Causal lows) (period : ℕ) :
    Causal (fun l => (aroon (highs l) (lows l) period).up) ∧
      Causal (fun l => (aroon (highs l) (lows l) period).down) ∧
      Causal fun l => (aroon (highs l) (lows l) period).osc := by
  have hup : ∀ l x i, period ≤ i → i < l.length →
      lastHighest (highs (l ++ [x])) period i = lastHighest (highs l) period i := by
    intro l x i hw hi
    refine search_congr hw fun best j hbest hj => ?_
    rw [idx_causal hh (by omega), idx_causal hh (by omega)]
  have hdown : ∀ l x i, period ≤ i → i < l.length →
      lastLowest (lows (l ++ [x])) period i = lastLowest (lows l) period i := by
    intro l x i hw hi
    refine search_congr hw fun best j hbest hj => ?_
    rw [idx_causal hl (by omega), idx_causal hl (by omega)]
  unfold aroon
  simp only [hh.length, hl.length, Nat.min_self]
  refine ⟨causal_guarded_succ nan fun l x i hw hi => ?_, causal_guarded_succ nan fun l x i hw hi => ?_,
    causal_guarded_succ nan fun l x i hw hi => ?_⟩
  · rw [hup l x i hw hi]
  · rw [hdown l x i hw hi]
  · rw [hup l x i hw hi, hdown l x i hw hi]

end reads

end Qtss.Indicators
