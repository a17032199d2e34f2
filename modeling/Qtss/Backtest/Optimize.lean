import Mathlib.Algebra.Order.Field.Rat
import Mathlib.Data.List.Basic
import Mathlib.Data.List.Range
import Mathlib.Tactic.Linarith
import Qtss.Lib.Fallible
/-
# Grid search with walk-forward windows (`qtss-backtest/src/optimize.rs`)

| here | there |
| --- | --- |
| `WalkForwardConfig`, `ParameterGrid`, `OptimizationResult` | optimize.rs:14, :31, :36 |
| `cartesianProduct` | `cartesian_product` (:135) |
| `windowLoop`       | the `while` of `walk_forward_avg` (:117), given fuel |
| `walkForwardAvg`, `gridSearch` | :92, :48 |
| `usizeAdd`         | `+` on `usize`: with overflow checks it panics, without them it wraps |
| `sliceOf`          | `bars[a..b]`, which panics out of bounds |

A `BTreeMap` is its entries in the order of the keys, so the early return for no axes is what the loop gives anyway.
The strategy, its factory (`FnMut`, so with a state) and the engine's `run` are one parameter `backtest`, the score
function is another; bars, values and results are any types.

Nothing checks the configuration. A step of zero never leaves the first window, and a sum past `usize::MAX` panics or
starts over; `grid_search_iff` has the exact condition.
-/

namespace Qtss.Backtest.Optimize
open Fallible

structure WalkForwardConfig where
  trainBars : UInt64
  testBars : UInt64
  stepBars : UInt64
deriving DecidableEq

def WalkForwardConfig.default : WalkForwardConfig := ⟨2000, 500, 500⟩

abbrev Params (V : Type) := List (String × V)

structure ParameterGrid (V : Type) where
  axes : List (String × List V)
  sorted : (axes.map (·.1)).Pairwise (· < ·)

structure OptimizationResult (V R : Type) where
  bestParams : Params V
  score : ℚ
  walkForwardSummary : String
  runs : List R

/-- `Decimal::MIN`. -/
def decimalMin : ℚ := -79228162514264337593543950335

/-- optimize.rs:135. -/
def cartesianProduct {V : Type} (axes : List (String × List V)) : List (Params V) :=
  axes.foldl (fun out (k, vals) => out.flatMap fun base => vals.map fun v => base ++ [(k, v)]) [[]]

/-! ## Arithmetic and slices -/

/-- What keeps a call from returning. -/
inductive Halt where
  | panic
  | outOfFuel
deriving DecidableEq

def usizeAdd (checked : Bool) (a b : UInt64) : Except Halt UInt64 :=
  if checked = true ∧ 2 ^ 64 ≤ a.toNat + b.toNat then .error .panic else .ok (a + b)

def sliceOf {Bar : Type} (bars : List Bar) (lo hi : UInt64) : Except Halt (List Bar) :=
  if lo.toNat ≤ hi.toNat ∧ hi.toNat ≤ bars.length then .ok ((bars.take hi.toNat).drop lo.toNat)
  else .error .panic

/-! ## The search -/

/-- What the backtests of a search share: the state of the factory, and the results. -/
structure Search (σ R : Type) where
  factory : σ
  runs : List R

/-- The variables of the loop. -/
structure Windows (σ R : Type) where
  search : Search σ R
  agg : ℚ
  windows : ℕ

structure Best (V σ R : Type) where
  score : ℚ
  params : Params V
  search : Search σ R

section search
variable {Bar V R σ : Type} (backtest : σ → Params V → List Bar → R × σ) (scoreFn : R → ℚ) (checked : Bool)
  (wf : WalkForwardConfig) (bars : List Bar)

def evaluate (params : Params V) (slice : List Bar) (s : Search σ R) : R × Search σ R :=
  let (res, factory) := backtest s.factory params slice
  (res, ⟨factory, s.runs ++ [res]⟩)

def evalWindow (params : Params V) (slice : List Bar) (w : Windows σ R) : Windows σ R :=
  let (res, search) := evaluate backtest params slice w.search
  ⟨search, w.agg + scoreFn res, w.windows + 1⟩

/-- optimize.rs:117. -/
def windowLoop (params : Params V) : ℕ → UInt64 → Windows σ R → Except Halt (Windows σ R)
  | 0, _, _ => .error .outOfFuel
  | fuel + 1, start, w => do
    let trainEnd ← usizeAdd checked start wf.trainBars
    let stop ← usizeAdd checked trainEnd wf.testBars
    if stop.toNat ≤ bars.length then
      let testStart ← usizeAdd checked start wf.trainBars
      let testEnd ← usizeAdd checked testStart wf.testBars
      let slice ← sliceOf bars testStart testEnd
      let next ← usizeAdd checked start wf.stepBars
      windowLoop params fuel next (evalWindow backtest scoreFn params slice w)
    else .ok w

/-- optimize.rs:92: the average score, and the search after it. -/
def walkForwardAvg (fuel : ℕ) (params : Params V) (s : Search σ R) : Except Halt (ℚ × Search σ R) := do
  let total ← usizeAdd checked wf.trainBars wf.testBars
  if bars.length < total.toNat then
    let (res, s) := evaluate backtest params bars s
    .ok (scoreFn res, s)
  else
    let w ← windowLoop backtest scoreFn checked wf bars params fuel 0 ⟨s, 0, 0⟩
    .ok (if w.windows = 0 then 0 else w.agg / w.windows, w.search)

/-- One combination in the loop of `grid_search`. -/
def searchCombo (fuel : ℕ) (best : Best V σ R) (params : Params V) : Except Halt (Best V σ R) := do
  let (wfScore, search) ← walkForwardAvg backtest scoreFn checked wf bars fuel params best.search
  .ok (if wfScore > best.score then ⟨wfScore, params, search⟩ else ⟨best.score, best.params, search⟩)

/-- optimize.rs:48. -/
def gridSearch (grid : ParameterGrid V) (factory : σ) (fuel : ℕ) : Except Halt (OptimizationResult V R) := do
  let best ← (cartesianProduct grid.axes).foldlM (searchCombo backtest scoreFn checked wf bars fuel)
    ⟨decimalMin, [], ⟨factory, []⟩⟩
  .ok {
    bestParams := best.params
    score := best.score
    walkForwardSummary := "train=" ++ toString wf.trainBars ++ " test=" ++ toString wf.testBars ++
      " step=" ++ toString wf.stepBars
    runs := best.search.runs }

end search

/-! ## What a search should do -/

/-- The bars of a window. -/
def WalkForwardConfig.span (wf : WalkForwardConfig) : ℕ := wf.trainBars.toNat + wf.testBars.toNat

/-- The multiples of the step whose window fits into `n` bars. -/
def fittingStarts (wf : WalkForwardConfig) (n : ℕ) : List ℕ :=
  ((List.range (n + 1)).map (· * wf.stepBars.toNat)).filter fun start => start + wf.span ≤ n

section spec
variable {Bar V R σ : Type} (backtest : σ → Params V → List Bar → R × σ) (scoreFn : R → ℚ) (checked : Bool)
  (wf : WalkForwardConfig) (bars : List Bar)

/-- The test range of the window at `start`. -/
def windowAt (start : ℕ) : List Bar := (bars.take (start + wf.span)).drop (start + wf.trainBars.toNat)

/-- Every combination on every window, in turn. -/
def jobs (combos : List (Params V)) : List (Params V × List Bar) :=
  combos.flatMap fun params => (fittingStarts wf bars.length).map fun start => (params, windowAt wf bars start)

def evaluateAll (s : Search σ R) (jobs : List (Params V × List Bar)) : Search σ R :=
  jobs.foldl (fun s job => (evaluate backtest job.1 job.2 s).2) s

/-- The search ends with a result, and where one window at least fits, its runs are those of the jobs. -/
def Searches (grid : ParameterGrid V) (factory : σ) : Prop :=
  ∃ out : OptimizationResult V R,
    (∃ enough, ∀ fuel, enough ≤ fuel →
      gridSearch backtest scoreFn checked wf bars grid factory fuel = .ok out) ∧
    (wf.span ≤ bars.length →
      out.runs = (evaluateAll backtest ⟨factory, []⟩ (jobs wf bars (cartesianProduct grid.axes))).runs)

end spec

/-- The last window that fits. -/
def lastWindow (wf : WalkForwardConfig) (n : ℕ) : ℕ := (n - wf.span) / wf.stepBars.toNat

/-- No window fits, in the code's arithmetic as well; or the step is positive and the first start past
the last window does not overflow. -/
def Sane (checked : Bool) (wf : WalkForwardConfig) (n : ℕ) : Prop :=
  (n < wf.span % 2 ^ 64 ∧ (checked = true → wf.span < 2 ^ 64)) ∨
    (wf.span ≤ n ∧ 0 < wf.stepBars.toNat ∧
      (lastWindow wf n + 1) * wf.stepBars.toNat + wf.span < 2 ^ 64)

/-! ## Sums -/

section sums
variable {checked : Bool} {a b c : UInt64}

theorem usizeAdd_of_lt (checked : Bool) (h : a.toNat + b.toNat < 2 ^ 64) :
    usizeAdd checked a b = .ok (a + b) ∧ (a + b).toNat = a.toNat + b.toNat := by
  constructor
  · exact if_neg fun hover => absurd hover.2 (not_le.2 h)
  · rw [UInt64.toNat_add, Nat.mod_eq_of_lt h]

theorem usizeAdd_ok (h : usizeAdd checked a b = .ok c) :
    c = a + b ∧ (checked = true → a.toNat + b.toNat < 2 ^ 64) := by
  unfold usizeAdd at h
  split at h
  · cases h
  · rename_i hno
    push Not at hno
    exact ⟨(Except.ok.inj h).symm, hno⟩

/-- The end of a window, as the code computes it. -/
theorem toNat_stop (start : UInt64) (wf : WalkForwardConfig) :
    (start + wf.trainBars + wf.testBars).toNat = (start.toNat + wf.span) % 2 ^ 64 := by
  rw [UInt64.toNat_add, UInt64.toNat_add, Nat.mod_add_mod, WalkForwardConfig.span, Nat.add_assoc]

/-- The two sums of a window that does not overflow. -/
theorem window_sums {start : UInt64} {wf : WalkForwardConfig} (checked : Bool)
    (h : start.toNat + wf.span < 2 ^ 64) :
    usizeAdd checked start wf.trainBars = .ok (start + wf.trainBars) ∧
      usizeAdd checked (start + wf.trainBars) wf.testBars = .ok (start + wf.trainBars + wf.testBars) ∧
      (start + wf.trainBars).toNat = start.toNat + wf.trainBars.toNat ∧
      (start + wf.trainBars + wf.testBars).toNat = start.toNat + wf.span := by
  have hspan : wf.span = wf.trainBars.toNat + wf.testBars.toNat := rfl
  obtain ⟨htrain, htrain'⟩ := @usizeAdd_of_lt start wf.trainBars checked (by omega)
  obtain ⟨htest, htest'⟩ := @usizeAdd_of_lt (start + wf.trainBars) wf.testBars checked (by omega)
  exact ⟨htrain, htest, htrain', by omega⟩

end sums

/-! ## One round of the loop -/

section loop
variable {Bar V R σ : Type} {backtest : σ → Params V → List Bar → R × σ} {scoreFn : R → ℚ} {checked : Bool}
  {wf : WalkForwardConfig} {bars : List Bar} {params : Params V} {fuel : ℕ} {start : UInt64} {w w' : Windows σ R}

/-- A window that fits is evaluated. -/
theorem windowLoop_fits (hlen : bars.length < 2 ^ 64) (hfits : start.toNat + wf.span ≤ bars.length) :
    windowLoop backtest scoreFn checked wf bars params (fuel + 1) start w =
      (usizeAdd checked start wf.stepBars).bind fun next =>
        windowLoop backtest scoreFn checked wf bars params fuel next
          (evalWindow backtest scoreFn params (windowAt wf bars start.toNat) w) := by
  obtain ⟨htrain, htest, htrain', hstop⟩ := @window_sums start wf checked (by omega)
  have hspan : wf.span = wf.trainBars.toNat + wf.testBars.toNat := rfl
  have hslice : sliceOf bars (start + wf.trainBars) (start + wf.trainBars + wf.testBars) =
      .ok (windowAt wf bars start.toNat) := by
    unfold sliceOf windowAt
    rw [if_pos ⟨by omega, by omega⟩, hstop, htrain']
  simp only [windowLoop, htrain, htest, hslice, bind, Except.bind, hstop, hfits, if_true]

/-- The loop stops at a window that does not fit. -/
theorem windowLoop_stops (hword : start.toNat + wf.span < 2 ^ 64) (hout : bars.length < start.toNat + wf.span) :
    windowLoop backtest scoreFn checked wf bars params (fuel + 1) start w = .ok w := by
  obtain ⟨htrain, htest, -, hstop⟩ := @window_sums start wf checked hword
  have hover : ¬(start + wf.trainBars + wf.testBars).toNat ≤ bars.length := by omega
  simp only [windowLoop, htrain, htest, bind, Except.bind, hover, if_false]

/-- What a round has done that returned: its sums did not panic, and where the end of its window is
within the bars, in the code's arithmetic, it has evaluated a slice and gone on. -/
theorem windowLoop_inv (h : windowLoop backtest scoreFn checked wf bars params (fuel + 1) start w = .ok w') :
    (checked = true → start.toNat + wf.span < 2 ^ 64) ∧
    ((start.toNat + wf.span) % 2 ^ 64 ≤ bars.length →
      (start + wf.trainBars).toNat ≤ (start.toNat + wf.span) % 2 ^ 64 ∧
      (checked = true → start.toNat + wf.stepBars.toNat < 2 ^ 64) ∧
      ∃ slice, windowLoop backtest scoreFn checked wf bars params fuel (start + wf.stepBars)
        (evalWindow backtest scoreFn params slice w) = .ok w') ∧
    (bars.length < (start.toNat + wf.span) % 2 ^ 64 → w' = w) := by
  rw [windowLoop] at h
  obtain ⟨_, htrain, h⟩ := bind_eq_ok.1 h
  obtain ⟨rfl, htrain'⟩ := usizeAdd_ok htrain
  obtain ⟨_, htest, h⟩ := bind_eq_ok.1 h
  obtain ⟨rfl, htest'⟩ := usizeAdd_ok htest
  rw [toNat_stop] at h
  refine ⟨fun hchecked => ?_, fun hfits => ?_, fun hout => ?_⟩
  · have hsum := htest' hchecked
    rw [UInt64.toNat_add, Nat.mod_eq_of_lt (htrain' hchecked)] at hsum
    rw [WalkForwardConfig.span]
    omega
  · rw [if_pos hfits] at h
    obtain ⟨_, hstart, h⟩ := bind_eq_ok.1 h
    obtain ⟨rfl, -⟩ := usizeAdd_ok hstart
    obtain ⟨_, hend, h⟩ := bind_eq_ok.1 h
    obtain ⟨rfl, -⟩ := usizeAdd_ok hend
    obtain ⟨slice, hslice, h⟩ := bind_eq_ok.1 h
    obtain ⟨_, hnext, h⟩ := bind_eq_ok.1 h
    obtain ⟨rfl, hnext'⟩ := usizeAdd_ok hnext
    refine ⟨?_, hnext', slice, h⟩
    unfold sliceOf at hslice
    split at hslice
    · rename_i hbounds
      rw [← toNat_stop]
      exact hbounds.1
    · cases hslice
  · rw [if_neg (not_le.2 hout)] at h
    exact (Except.ok.inj h).symm

/-! ## The windows of a run -/

def evalWindows (backtest : σ → Params V → List Bar → R × σ) (scoreFn : R → ℚ) (wf : WalkForwardConfig)
    (bars : List Bar) (params : Params V) (starts : List ℕ) (w : Windows σ R) : Windows σ R :=
  starts.foldl (fun w start => evalWindow backtest scoreFn params (windowAt wf bars start) w) w

/-- The loop goes through the windows one step apart as long as they fit. -/
theorem windowLoop_upto (hlen : bars.length < 2 ^ 64) (j : ℕ)
    (hfits : start.toNat + j * wf.stepBars.toNat + wf.span ≤ bars.length) :
    ∃ next : UInt64, next.toNat = start.toNat + j * wf.stepBars.toNat ∧
      windowLoop backtest scoreFn checked wf bars params (fuel + j) start w =
        windowLoop backtest scoreFn checked wf bars params fuel next
          (evalWindows backtest scoreFn wf bars params
            ((List.range j).map fun i => start.toNat + i * wf.stepBars.toNat) w) := by
  induction j generalizing start w with
  | zero => exact ⟨start, by simp, rfl⟩
  | succ j ih =>
    rw [Nat.succ_mul] at hfits
    obtain ⟨hnext, hnext'⟩ := @usizeAdd_of_lt start wf.stepBars checked (by omega)
    obtain ⟨next, hto, hloop⟩ := @ih (start + wf.stepBars)
      (evalWindow backtest scoreFn params (windowAt wf bars start.toNat) w) (by omega)
    refine ⟨next, by rw [hto, hnext', Nat.succ_mul]; omega, ?_⟩
    rw [← Nat.add_assoc, windowLoop_fits hlen (by omega), hnext, Except.bind, hloop, hnext']
    have hstarts : (List.range (j + 1)).map (fun i => start.toNat + i * wf.stepBars.toNat) =
        start.toNat :: (List.range j).map fun i => start.toNat + wf.stepBars.toNat + i * wf.stepBars.toNat := by
      rw [List.range_succ_eq_map, List.map_cons, List.map_map, Nat.zero_mul, Nat.add_zero]
      refine congrArg _ (List.map_congr_left fun i _ => ?_)
      simp only [Function.comp_apply, Nat.succ_mul]
      omega
    rw [hstarts]
    rfl

theorem le_lastWindow_iff {n k : ℕ} (hstep : 0 < wf.stepBars.toNat) (hspan : wf.span ≤ n) :
    k ≤ lastWindow wf n ↔ k * wf.stepBars.toNat + wf.span ≤ n := by
  rw [lastWindow, Nat.le_div_iff_mul_le hstep]
  omega

/-- Where the step is positive, the windows that fit are the first ones. -/
theorem fittingStarts_eq {n : ℕ} (hstep : 0 < wf.stepBars.toNat) (hspan : wf.span ≤ n) :
    fittingStarts wf n = (List.range (lastWindow wf n + 1)).map (· * wf.stepBars.toNat) := by
  have hlast : lastWindow wf n ≤ n := (Nat.div_le_self _ _).trans (Nat.sub_le _ _)
  obtain ⟨r, hr⟩ : ∃ r, n + 1 = lastWindow wf n + 1 + r := Nat.exists_eq_add_of_le (Nat.succ_le_succ hlast)
  unfold fittingStarts
  rw [List.filter_map, hr, List.range_add, List.filter_append]
  have hfirst : (List.range (lastWindow wf n + 1)).filter
      ((fun start => decide (start + wf.span ≤ n)) ∘ (· * wf.stepBars.toNat)) =
        List.range (lastWindow wf n + 1) := by
    refine List.filter_eq_self.2 fun k hk => ?_
    exact decide_eq_true ((le_lastWindow_iff hstep hspan).1 (Nat.lt_succ_iff.1 (List.mem_range.1 hk)))
  have hrest : ((List.range r).map (lastWindow wf n + 1 + ·)).filter
      ((fun start => decide (start + wf.span ≤ n)) ∘ (· * wf.stepBars.toNat)) = [] := by
    refine List.filter_eq_nil_iff.2 fun k hk hfits => ?_
    obtain ⟨i, -, rfl⟩ := List.mem_map.1 hk
    have hle := (le_lastWindow_iff hstep hspan).2 (of_decide_eq_true hfits)
    omega
  rw [hfirst, hrest, List.append_nil]

/-- The loop ends where the first start past the last window does not overflow. -/
theorem windowLoop_ends (hlen : bars.length < 2 ^ 64) (hspan : wf.span ≤ bars.length)
    (hstep : 0 < wf.stepBars.toNat)
    (hnext : (lastWindow wf bars.length + 1) * wf.stepBars.toNat + wf.span < 2 ^ 64)
    (hfuel : lastWindow wf bars.length + 2 ≤ fuel) :
    windowLoop backtest scoreFn checked wf bars params fuel 0 w =
      .ok (evalWindows backtest scoreFn wf bars params (fittingStarts wf bars.length) w) := by
  obtain ⟨f, rfl⟩ := Nat.exists_eq_add_of_le' hfuel
  have hlast := (le_lastWindow_iff (n := bars.length) hstep hspan).1 (le_refl _)
  have hpast : ¬(lastWindow wf bars.length + 1) * wf.stepBars.toNat + wf.span ≤ bars.length := by
    rw [← le_lastWindow_iff hstep hspan]
    omega
  rw [Nat.succ_mul] at hnext hpast
  obtain ⟨last, hto, hloop⟩ := @windowLoop_upto Bar V R σ backtest scoreFn checked wf bars params (f + 2) 0 w
    hlen (lastWindow wf bars.length) (by simpa using hlast)
  rw [UInt64.toNat_zero, Nat.zero_add] at hto
  obtain ⟨hadd, hadd'⟩ := @usizeAdd_of_lt last wf.stepBars checked (by omega)
  have hfuel' : f + (lastWindow wf bars.length + 2) = f + 2 + lastWindow wf bars.length := by omega
  rw [hfuel', hloop, windowLoop_fits hlen (by omega), hadd, Except.bind, windowLoop_stops (by omega) (by omega), hto,
    fittingStarts_eq hstep hspan, List.range_succ, List.map_append, evalWindows, evalWindows, List.foldl_append]
  simp

/-! ## Where it goes wrong -/

/-- No window is taken back. -/
theorem windowLoop_grows (h : windowLoop backtest scoreFn checked wf bars params fuel start w = .ok w') :
    w.search.runs.length ≤ w'.search.runs.length := by
  induction fuel generalizing start w with
  | zero => cases h
  | succ fuel ih =>
    obtain ⟨-, hfits, hout⟩ := windowLoop_inv h
    by_cases hle : (start.toNat + wf.span) % 2 ^ 64 ≤ bars.length
    · obtain ⟨-, -, slice, hrest⟩ := hfits hle
      have hmore := ih hrest
      simp only [evalWindow, evaluate, List.length_append, List.length_singleton] at hmore
      omega
    · rw [hout (not_le.1 hle)]

/-- A round whose window ends within the bars adds a run. -/
theorem windowLoop_round (h : windowLoop backtest scoreFn checked wf bars params fuel start w = .ok w')
    (hle : (start.toNat + wf.span) % 2 ^ 64 ≤ bars.length) :
    (checked = true → start.toNat + wf.span < 2 ^ 64 ∧ start.toNat + wf.stepBars.toNat < 2 ^ 64) ∧
      (start + wf.trainBars).toNat ≤ (start.toNat + wf.span) % 2 ^ 64 ∧
      ∃ fuel' w'', w''.search.runs.length = w.search.runs.length + 1 ∧
        windowLoop backtest scoreFn checked wf bars params fuel' (start + wf.stepBars) w'' = .ok w' := by
  cases fuel with
  | zero => cases h
  | succ fuel =>
    obtain ⟨hsum, hfits, -⟩ := windowLoop_inv h
    obtain ⟨htrain, hnext, slice, hrest⟩ := hfits hle
    refine ⟨fun hc => ⟨hsum hc, hnext hc⟩, htrain, fuel, _, ?_, hrest⟩
    simp only [evalWindow, evaluate, List.length_append, List.length_singleton]

/-- A step of zero stays at the first window. -/
theorem windowLoop_zero_step (hlen : bars.length < 2 ^ 64) (hfits : start.toNat + wf.span ≤ bars.length)
    (hstep : wf.stepBars.toNat = 0) :
    windowLoop backtest scoreFn checked wf bars params fuel start w = .error .outOfFuel := by
  induction fuel generalizing w with
  | zero => rfl
  | succ fuel ih =>
    obtain ⟨hadd, hadd'⟩ := @usizeAdd_of_lt start wf.stepBars checked (by omega)
    have hsame : start + wf.stepBars = start := UInt64.toNat_inj.1 (by omega)
    rw [windowLoop_fits hlen hfits, hadd, Except.bind, hsame]
    exact ih

/-- A window longer than a word wraps to one that ends before its test range starts. -/
theorem windowLoop_wide (hspan : 2 ^ 64 ≤ wf.span) (hle : wf.span % 2 ^ 64 ≤ bars.length) :
    windowLoop backtest scoreFn checked wf bars params fuel 0 w ≠ .ok w' := by
  intro h
  obtain ⟨-, htrain, -⟩ := windowLoop_round h (by simpa using hle)
  have hsum : wf.span = wf.trainBars.toNat + wf.testBars.toNat := rfl
  have hword := wf.trainBars.toNat_lt
  have hword' := wf.testBars.toNat_lt
  simp only [UInt64.zero_add, UInt64.toNat_zero, Nat.zero_add] at htrain
  omega

/-- A loop that returns has passed every window it started from. -/
theorem windowLoop_reaches (hlen : bars.length < 2 ^ 64) (j : ℕ)
    (hfits : start.toNat + j * wf.stepBars.toNat + wf.span ≤ bars.length)
    (h : windowLoop backtest scoreFn checked wf bars params fuel start w = .ok w') :
    ∃ fuel' next w'', next.toNat = start.toNat + j * wf.stepBars.toNat ∧
      w''.search.runs.length = w.search.runs.length + j ∧
      windowLoop backtest scoreFn checked wf bars params fuel' next w'' = .ok w' := by
  induction j generalizing start w fuel with
  | zero => exact ⟨fuel, start, w, by simp, rfl, h⟩
  | succ j ih =>
    rw [Nat.succ_mul] at hfits
    have hmod : (start.toNat + wf.span) % 2 ^ 64 = start.toNat + wf.span := Nat.mod_eq_of_lt (by omega)
    obtain ⟨-, -, fuel', w₁, hlen₁, h₁⟩ := windowLoop_round h (by omega)
    have hnext : (start + wf.stepBars).toNat = start.toNat + wf.stepBars.toNat := by
      rw [UInt64.toNat_add, Nat.mod_eq_of_lt (by omega)]
    obtain ⟨fuel'', next, w₂, hto, hlen₂, h₂⟩ := ih (by omega) h₁
    exact ⟨fuel'', next, w₂, by rw [hto, hnext, Nat.succ_mul]; omega, by omega, h₂⟩

/-- Where the first start past the last window overflows, the sum panics, or wraps to a start before
it, and a window too many is evaluated. -/
theorem windowLoop_overflow (hlen : bars.length < 2 ^ 64) (hspan : wf.span ≤ bars.length)
    (hstep : 0 < wf.stepBars.toNat)
    (hover : 2 ^ 64 ≤ (lastWindow wf bars.length + 1) * wf.stepBars.toNat + wf.span)
    (h : windowLoop backtest scoreFn checked wf bars params fuel 0 w = .ok w') :
    w.search.runs.length + (lastWindow wf bars.length + 2) ≤ w'.search.runs.length := by
  have hlast := (le_lastWindow_iff (n := bars.length) hstep hspan).1 (le_refl _)
  rw [Nat.succ_mul] at hover
  obtain ⟨fuel₁, last, w₁, hto, hlen₁, h₁⟩ :=
    windowLoop_reaches hlen (lastWindow wf bars.length) (by simpa using hlast) h
  rw [UInt64.toNat_zero, Nat.zero_add] at hto
  have hmod : (last.toNat + wf.span) % 2 ^ 64 = last.toNat + wf.span := Nat.mod_eq_of_lt (by omega)
  obtain ⟨hchecked, -, fuel₂, w₂, hlen₂, h₂⟩ := windowLoop_round h₁ (by omega)
  -- the sum after the last window has wrapped, or the end of the window after it will
  have hnext : (last + wf.stepBars).toNat = (last.toNat + wf.stepBars.toNat) % 2 ^ 64 := UInt64.toNat_add ..
  have hword := wf.stepBars.toNat_lt
  have hle : ((last + wf.stepBars).toNat + wf.span) % 2 ^ 64 ≤ bars.length := by
    rw [hnext, Nat.mod_add_mod, hto]
    have hsmall : lastWindow wf bars.length * wf.stepBars.toNat + wf.stepBars.toNat + wf.span - 2 ^ 64 < 2 ^ 64 := by
      omega
    rw [Nat.mod_eq_sub_mod (by omega), Nat.mod_eq_of_lt hsmall]
    omega
  obtain ⟨-, -, fuel₃, w₃, hlen₃, h₃⟩ := windowLoop_round h₂ hle
  have hgrows := windowLoop_grows h₃
  omega

/-! ## One combination -/

theorem evalWindows_search (starts : List ℕ) (w : Windows σ R) :
    (evalWindows backtest scoreFn wf bars params starts w).search =
      evaluateAll backtest w.search (starts.map fun start => (params, windowAt wf bars start)) := by
  induction starts generalizing w with
  | nil => rfl
  | cons start starts ih => exact ih _

/-- Where no window fits, all the bars are one. -/
theorem walkForwardAvg_short (hshort : bars.length < wf.span % 2 ^ 64) (hchecked : checked = true → wf.span < 2 ^ 64)
    (params : Params V) (s : Search σ R) :
    walkForwardAvg backtest scoreFn checked wf bars fuel params s =
      .ok (scoreFn (evaluate backtest params bars s).1, (evaluate backtest params bars s).2) := by
  have htotal : (wf.trainBars + wf.testBars).toNat = wf.span % 2 ^ 64 := UInt64.toNat_add ..
  have hadd : usizeAdd checked wf.trainBars wf.testBars = .ok (wf.trainBars + wf.testBars) :=
    if_neg fun hover => absurd (hchecked hover.1) (not_lt.2 hover.2)
  simp only [walkForwardAvg, hadd, bind, Except.bind, htotal, hshort, if_true]

theorem walkForwardAvg_long (hlen : bars.length < 2 ^ 64) (hspan : wf.span ≤ bars.length)
    (hstep : 0 < wf.stepBars.toNat)
    (hnext : (lastWindow wf bars.length + 1) * wf.stepBars.toNat + wf.span < 2 ^ 64) (params : Params V)
    (s : Search σ R) (hfuel : lastWindow wf bars.length + 2 ≤ fuel) :
    let w := evalWindows backtest scoreFn wf bars params (fittingStarts wf bars.length) ⟨s, 0, 0⟩
    walkForwardAvg backtest scoreFn checked wf bars fuel params s =
      .ok (if w.windows = 0 then 0 else w.agg / w.windows, w.search) := by
  have htotal : (wf.trainBars + wf.testBars).toNat = wf.span % 2 ^ 64 := UInt64.toNat_add ..
  obtain ⟨hadd, -⟩ := @usizeAdd_of_lt wf.trainBars wf.testBars checked
    (show wf.span < 2 ^ 64 by omega)
  have hlong : ¬bars.length < (wf.trainBars + wf.testBars).toNat := by
    rw [htotal, Nat.mod_eq_of_lt (by omega)]
    omega
  simp only [walkForwardAvg, hadd, bind, Except.bind, hlong, if_false, windowLoop_ends hlen hspan hstep hnext hfuel]

theorem walkForwardAvg_sane (hlen : bars.length < 2 ^ 64) (hsane : Sane checked wf bars.length) (params : Params V)
    (s : Search σ R) (hfuel : lastWindow wf bars.length + 2 ≤ fuel) :
    ∃ score s', walkForwardAvg backtest scoreFn checked wf bars fuel params s = .ok (score, s') ∧
      (wf.span ≤ bars.length → s' = evaluateAll backtest s (jobs wf bars [params])) := by
  rcases hsane with ⟨hshort, hchecked⟩ | ⟨hspan, hstep, hnext⟩
  · refine ⟨_, _, walkForwardAvg_short hshort hchecked params s, fun hspan => ?_⟩
    rw [Nat.mod_eq_of_lt (by omega)] at hshort
    omega
  · refine ⟨_, _, walkForwardAvg_long hlen hspan hstep hnext params s hfuel, fun _ => ?_⟩
    rw [evalWindows_search]
    simp only [jobs, List.flatMap_cons, List.flatMap_nil, List.append_nil]

/-- More fuel changes nothing. -/
theorem walkForwardAvg_enough (hlen : bars.length < 2 ^ 64) (hsane : Sane checked wf bars.length) (params : Params V)
    (s : Search σ R) (hfuel : lastWindow wf bars.length + 2 ≤ fuel) :
    walkForwardAvg backtest scoreFn checked wf bars fuel params s =
      walkForwardAvg backtest scoreFn checked wf bars (lastWindow wf bars.length + 2) params s := by
  rcases hsane with ⟨hshort, -⟩ | ⟨hspan, hstep, hnext⟩
  · unfold walkForwardAvg
    refine bind_congr_ok fun total htotal => ?_
    rw [(usizeAdd_ok htotal).1, UInt64.toNat_add, ← WalkForwardConfig.span, if_pos hshort, if_pos hshort]
  · simp only [walkForwardAvg, windowLoop_ends hlen hspan hstep hnext hfuel,
      windowLoop_ends hlen hspan hstep hnext (le_refl _)]

/-- Elsewhere a combination that comes to an end has a window too many. -/
theorem walkForwardAvg_insane {score : ℚ} {s s' : Search σ R} (hlen : bars.length < 2 ^ 64)
    (hsane : ¬Sane checked wf bars.length)
    (h : walkForwardAvg backtest scoreFn checked wf bars fuel params s = .ok (score, s')) :
    wf.span ≤ bars.length ∧
      s.runs.length + ((fittingStarts wf bars.length).length + 1) ≤ s'.runs.length := by
  have htotal : (wf.trainBars + wf.testBars).toNat = wf.span % 2 ^ 64 := UInt64.toNat_add ..
  obtain ⟨_, hadd, h⟩ := bind_eq_ok.1 h
  obtain ⟨rfl, hchecked⟩ := usizeAdd_ok hadd
  rw [htotal] at h
  unfold Sane at hsane
  push Not at hsane
  obtain ⟨hshort, hlong⟩ := hsane
  by_cases hout : bars.length < wf.span % 2 ^ 64
  · exact absurd (hchecked (hshort hout).1) (not_lt.2 (hshort hout).2)
  · rw [if_neg hout] at h
    obtain ⟨w', hloop, h⟩ := bind_eq_ok.1 h
    obtain ⟨-, rfl⟩ := Prod.mk.inj (Except.ok.inj h)
    have hword : wf.span < 2 ^ 64 := by
      by_contra hwide
      exact windowLoop_wide (not_lt.1 hwide) (not_lt.1 hout) hloop
    rw [Nat.mod_eq_of_lt hword, not_lt] at hout
    rcases Nat.eq_zero_or_pos wf.stepBars.toNat with hstep | hstep
    · rw [windowLoop_zero_step hlen (by simpa using hout) hstep] at hloop
      cases hloop
    · refine ⟨hout, ?_⟩
      rw [fittingStarts_eq hstep hout, List.length_map, List.length_range]
      exact windowLoop_overflow hlen hout hstep (hlong hout hstep) hloop

end loop

/-! ## The grid -/

section grid
variable {Bar V R σ : Type} {backtest : σ → Params V → List Bar → R × σ} {scoreFn : R → ℚ} {checked : Bool}
  {wf : WalkForwardConfig} {bars : List Bar} {fuel : ℕ}

/-- Only an axis without values leaves no combination. -/
theorem cartesianProduct_eq_nil_iff {axes : List (String × List V)} :
    cartesianProduct axes = [] ↔ ∃ axis ∈ axes, axis.2 = [] := by
  have hfold : ∀ out : List (Params V),
      axes.foldl (fun out (k, vals) => out.flatMap fun base => vals.map fun v => base ++ [(k, v)]) out = [] ↔
        out = [] ∨ ∃ axis ∈ axes, axis.2 = [] := by
    induction axes with
    | nil => simp
    | cons axis axes ih =>
      intro out
      have hnext : (out.flatMap fun base => axis.2.map fun v => base ++ [(axis.1, v)]) = [] ↔
          out = [] ∨ axis.2 = [] := by
        simp only [List.flatMap_eq_nil_iff, List.map_eq_nil_iff]
        cases out with
        | nil => simp
        | cons base out =>
          constructor
          · exact fun h => .inr (h base List.mem_cons_self)
          · rintro (h | h)
            · cases h
            · exact fun _ _ => h
      rw [List.foldl_cons, ih, hnext, List.exists_mem_cons_iff, or_assoc]
  rw [cartesianProduct, hfold]
  simp

theorem searchCombo_ok {best best' : Best V σ R} {params : Params V}
    (h : searchCombo backtest scoreFn checked wf bars fuel best params = .ok best') :
    ∃ score, walkForwardAvg backtest scoreFn checked wf bars fuel params best.search =
      .ok (score, best'.search) := by
  obtain ⟨⟨score, search⟩, hwalk, h⟩ := bind_eq_ok.1 h
  obtain rfl := Except.ok.inj h
  refine ⟨score, ?_⟩
  rw [hwalk]
  split
  · rfl
  · rfl

theorem evaluateAll_append (s : Search σ R) (before after : List (Params V × List Bar)) :
    evaluateAll backtest s (before ++ after) = evaluateAll backtest (evaluateAll backtest s before) after :=
  List.foldl_append

theorem evaluateAll_length (s : Search σ R) (jobs : List (Params V × List Bar)) :
    (evaluateAll backtest s jobs).runs.length = s.runs.length + jobs.length := by
  induction jobs generalizing s with
  | nil => rfl
  | cons job jobs ih =>
    have hone : (evaluate backtest job.1 job.2 s).2.runs.length = s.runs.length + 1 := List.length_append
    calc (evaluateAll backtest s (job :: jobs)).runs.length
        = (evaluate backtest job.1 job.2 s).2.runs.length + jobs.length := ih _
      _ = s.runs.length + (jobs.length + 1) := by rw [hone]; omega

theorem jobs_length (combos : List (Params V)) :
    (jobs wf bars combos).length = combos.length * (fittingStarts wf bars.length).length := by
  induction combos with
  | nil => simp [jobs]
  | cons params combos ih =>
    have hcons : jobs wf bars (params :: combos) = jobs wf bars [params] ++ jobs wf bars combos := by simp [jobs]
    rw [hcons, List.length_append, ih, List.length_cons, Nat.succ_mul, Nat.add_comm]
    simp [jobs]

/-- A sane search goes through every combination. -/
theorem foldlM_sane (hlen : bars.length < 2 ^ 64) (hsane : Sane checked wf bars.length)
    (hfuel : lastWindow wf bars.length + 2 ≤ fuel) (combos : List (Params V)) (best : Best V σ R) :
    ∃ best', combos.foldlM (searchCombo backtest scoreFn checked wf bars fuel) best = .ok best' ∧
      (wf.span ≤ bars.length → best'.search = evaluateAll backtest best.search (jobs wf bars combos)) := by
  induction combos generalizing best with
  | nil => exact ⟨best, rfl, fun _ => rfl⟩
  | cons params combos ih =>
    obtain ⟨score, s', hwalk, hs'⟩ := @walkForwardAvg_sane Bar V R σ backtest scoreFn checked wf bars fuel hlen hsane
      params best.search hfuel
    obtain ⟨next, hnext⟩ : ∃ next, searchCombo backtest scoreFn checked wf bars fuel best params = .ok next :=
      ⟨_, bind_eq_ok.2 ⟨_, hwalk, rfl⟩⟩
    obtain ⟨_, hwalk'⟩ := searchCombo_ok hnext
    obtain ⟨-, hsearch⟩ := Prod.mk.inj (Except.ok.inj (hwalk.symm.trans hwalk'))
    obtain ⟨best', hrest, hbest'⟩ := ih next
    refine ⟨best', foldlM_ok_cons.2 ⟨next, hnext, hrest⟩, fun hspan => ?_⟩
    have hcons : jobs wf bars (params :: combos) = jobs wf bars [params] ++ jobs wf bars combos := by simp [jobs]
    rw [hbest' hspan, hcons, evaluateAll_append, ← hs' hspan, hsearch]

/-- An insane one that comes to an end has a window too many in each combination. -/
theorem foldlM_insane {best best' : Best V σ R} {combos : List (Params V)} (hlen : bars.length < 2 ^ 64)
    (hsane : ¬Sane checked wf bars.length) (hne : combos ≠ [])
    (h : combos.foldlM (searchCombo backtest scoreFn checked wf bars fuel) best = .ok best') :
    wf.span ≤ bars.length ∧
      best.search.runs.length + combos.length * ((fittingStarts wf bars.length).length + 1) ≤
        best'.search.runs.length := by
  constructor
  · obtain ⟨params, rest, rfl⟩ := List.exists_cons_of_ne_nil hne
    obtain ⟨next, hnext, -⟩ := foldlM_ok_cons.1 h
    obtain ⟨score, hwalk⟩ := searchCombo_ok hnext
    exact (walkForwardAvg_insane hlen hsane hwalk).1
  · refine foldlM_measure (fun best => best.search.runs.length) (fun b params next hnext => ?_) h
    obtain ⟨score, hwalk⟩ := searchCombo_ok hnext
    exact (walkForwardAvg_insane hlen hsane hwalk).2

/-- A search that ends with the right windows, and that had a combination to try, is sane. -/
theorem sane_of_searches {grid : ParameterGrid V} {factory : σ} (hlen : bars.length < 2 ^ 64)
    (hne : cartesianProduct grid.axes ≠ []) (h : Searches backtest scoreFn checked wf bars grid factory) :
    Sane checked wf bars.length := by
  obtain ⟨out, ⟨enough, hsearch⟩, hruns⟩ := h
  by_contra hsane
  obtain ⟨best, hfold, hout⟩ := bind_eq_ok.1 (hsearch enough (le_refl _))
  obtain rfl := Except.ok.inj hout
  obtain ⟨hspan, hmore⟩ := foldlM_insane hlen hsane hne hfold
  have hlength := congrArg List.length (hruns hspan)
  rw [evaluateAll_length, jobs_length] at hlength
  have hpos := List.length_pos_of_ne_nil hne
  rw [Nat.mul_succ] at hmore
  simp only [List.length_nil] at hlength hmore
  omega

/-- A sane one ends with the right windows. -/
theorem searches_of_sane (hlen : bars.length < 2 ^ 64) (hsane : Sane checked wf bars.length)
    (grid : ParameterGrid V) (factory : σ) : Searches backtest scoreFn checked wf bars grid factory := by
  obtain ⟨best, hfold, hbest⟩ := @foldlM_sane Bar V R σ backtest scoreFn checked wf bars _ hlen hsane (le_refl _)
    (cartesianProduct grid.axes) ⟨decimalMin, [], ⟨factory, []⟩⟩
  refine ⟨_, ⟨lastWindow wf bars.length + 2, fun fuel hfuel => bind_eq_ok.2 ⟨best, ?_, rfl⟩⟩, fun hspan => ?_⟩
  · have hsame : searchCombo backtest scoreFn checked wf bars fuel =
        searchCombo backtest scoreFn checked wf bars (lastWindow wf bars.length + 2) := by
      funext best params
      rw [searchCombo, walkForwardAvg_enough hlen hsane params best.search hfuel]
      rfl
    rw [hsame]
    exact hfold
  · exact congrArg Search.runs (hbest hspan)

end grid

/-- Windows of four and two bars. -/
def shortConfig (step : UInt64) : WalkForwardConfig := ⟨4, 2, step⟩

/-- One axis with two values. -/
def twoFees : ParameterGrid ℕ := ⟨[("fee", [1, 2])], by decide⟩

/-- A backtest that notes what it is given. -/
def noted (calls : ℕ) (params : Params ℕ) (slice : List ℕ) : (ℕ × Params ℕ × List ℕ) × ℕ :=
  ((calls, params, slice), calls + 1)

end Qtss.Backtest.Optimize
