import Mathlib.Algebra.BigOperators.Group.List.Basic
import Mathlib.Algebra.Order.BigOperators.Group.List
import Mathlib.Tactic.FieldSimp
import Qtss.Backtest.Optimize
import Qtss.Lib.Exhaustive
/-
# What a grid search finds (`qtss-backtest/src/optimize.rs`)

For a strategy without randomness a backtest is a function `run` of the parameters and the bars, and a search that ends
is the exhaustive one over the choices of the axes, with the mean score over the windows as the value of a choice
(`gridSearch_fixed`).

The best choice is kept with `>` from `Decimal::MIN` on. Where every score is `Decimal::MIN` no choice is better than the
start, and the result is that of a grid without axes: no parameters, although the first choice attains the maximum.
-/

namespace Qtss.Backtest.Optimize
open Exhaustive Fallible

/-- The values at the positions of a choice. -/
def choose {V : Type} (axes : List (String × List V)) (c : List ℕ) : Params V :=
  (axes.zip c).filterMap fun (axis, i) => axis.2[i]?.map fun v => (axis.1, v)

/-! ## The product -/

section product
variable {V : Type}

/-- The loop extends every map it starts from in the same ways. -/
theorem foldl_product (axes : List (String × List V)) (out : List (Params V)) :
    axes.foldl (fun out (k, vals) => out.flatMap fun base => vals.map fun v => base ++ [(k, v)]) out =
      out.flatMap fun base => (cartesianProduct axes).map (base ++ ·) := by
  unfold cartesianProduct
  induction axes generalizing out with
  | nil => simp
  | cons axis axes ih =>
    obtain ⟨k, vals⟩ := axis
    have hone := ih ([[]].flatMap fun base => vals.map fun v => base ++ [(k, v)])
    simp only [List.foldl_cons, ih (out.flatMap _), hone]
    simp [List.flatMap_assoc, List.map_flatMap, List.flatMap_map, Function.comp_def]

theorem cartesianProduct_cons (axis : String × List V) (axes : List (String × List V)) :
    cartesianProduct (axis :: axes) = axis.2.flatMap fun v => (cartesianProduct axes).map ((axis.1, v) :: ·) := by
  rw [cartesianProduct, List.foldl_cons, foldl_product]
  simp [List.flatMap_map]

theorem nil_mem_cartesianProduct_iff {axes : List (String × List V)} : [] ∈ cartesianProduct axes ↔ axes = [] := by
  cases axes with
  | nil => simp [cartesianProduct]
  | cons axis axes => simp [cartesianProduct_cons]

/-- A list gone through by its positions. -/
theorem flatMap_eq_range {α β : Type} {xs : List α} {g : α → List β} {h : ℕ → List β}
    (heq : ∀ i x, xs[i]? = some x → h i = g x) : xs.flatMap g = (List.range xs.length).flatMap h := by
  induction xs using List.reverseRecOn with
  | nil => rfl
  | append_singleton xs x ih =>
    have hinit : xs.flatMap g = (List.range xs.length).flatMap h := by
      refine ih fun i y hy => heq i y ?_
      rw [List.getElem?_append_left (List.getElem?_eq_some_iff.1 hy).1, hy]
    rw [List.flatMap_append, hinit, List.length_append, List.length_singleton, List.range_succ, List.flatMap_append,
      List.flatMap_singleton, List.flatMap_singleton, heq xs.length x (by simp)]

/-- **The product** is the values at all the choices, in their order. -/
theorem cartesianProduct_eq (axes : List (String × List V)) :
    cartesianProduct axes = (choices (axes.map (·.2.length))).map (choose axes) := by
  induction axes with
  | nil => rfl
  | cons axis axes ih =>
    rw [cartesianProduct_cons, ih, List.map_cons, choices, List.map_flatMap]
    refine flatMap_eq_range fun i v hv => ?_
    rw [List.map_map, List.map_map]
    refine List.map_congr_left fun c _ => ?_
    simp [choose, hv]

end product

/-! ## The search that the code is to be -/

section search
variable {Bar V R : Type} (run : Params V → List Bar → R) (scoreFn : R → ℚ) (checked : Bool) (wf : WalkForwardConfig)
  (bars : List Bar)

/-- A strategy without randomness: the factory has no state. -/
def fixed : Unit → Params V → List Bar → R × Unit := fun _ params slice => (run params slice, ())

/-- The test ranges of the windows that fit, or all the bars where none does. -/
def windowsOf : List (List Bar) :=
  if bars.length < wf.span then [bars] else (fittingStarts wf bars.length).map (windowAt wf bars)

/-- The mean score over the windows. -/
def average (params : Params V) : ℚ :=
  ((windowsOf wf bars).map fun slice => scoreFn (run params slice)).sum / (windowsOf wf bars).length

/-- The search ends with `out`. -/
def Ends (grid : ParameterGrid V) (out : OptimizationResult V R) : Prop :=
  ∃ enough, ∀ fuel, enough ≤ fuel → gridSearch (fixed run) scoreFn checked wf bars grid () fuel = .ok out

/-- Every choice of the axes once, in lexicographic order; a result for each choice and window, in order; and the first
of the best choices with its score. -/
structure RightSearch (grid : ParameterGrid V) (out : OptimizationResult V R) : Prop where
  product : ∃ idx : List (List ℕ), idx.Pairwise (· < ·) ∧
    (∀ c, c ∈ idx ↔ List.Forall₂ (· < ·) c (grid.axes.map (·.2.length))) ∧
    cartesianProduct grid.axes = idx.map (choose grid.axes)
  runs : out.runs = (cartesianProduct grid.axes).flatMap fun params => (windowsOf wf bars).map (run params)
  best : cartesianProduct grid.axes ≠ [] →
    IsFirstMax (average run scoreFn wf bars) (cartesianProduct grid.axes) out.bestParams ∧
      out.score = average run scoreFn wf bars out.bestParams

end search

/-! ## The search that it is -/

section fixed
variable {Bar V R : Type} {run : Params V → List Bar → R} {scoreFn : R → ℚ} {checked : Bool} {wf : WalkForwardConfig}
  {bars : List Bar} {params : Params V} {fuel : ℕ}

theorem evalWindows_fixed (starts : List ℕ) (w : Windows Unit R) :
    evalWindows (fixed run) scoreFn wf bars params starts w =
      ⟨⟨(), w.search.runs ++ (starts.map (windowAt wf bars)).map (run params)⟩,
        w.agg + ((starts.map (windowAt wf bars)).map fun slice => scoreFn (run params slice)).sum,
        w.windows + starts.length⟩ := by
  induction starts generalizing w with
  | nil => simp [evalWindows]
  | cons start starts ih =>
    have hone : evalWindows (fixed run) scoreFn wf bars params (start :: starts) w =
        evalWindows (fixed run) scoreFn wf bars params starts
          (evalWindow (fixed run) scoreFn params (windowAt wf bars start) w) := rfl
    rw [hone, ih]
    simp [evalWindow, evaluate, fixed, add_assoc, add_comm 1]

theorem walkForwardAvg_fixed (hlen : bars.length < 2 ^ 64) (hsane : Sane checked wf bars.length) (s : Search Unit R)
    (hfuel : lastWindow wf bars.length + 2 ≤ fuel) :
    walkForwardAvg (fixed run) scoreFn checked wf bars fuel params s =
      .ok (average run scoreFn wf bars params, ⟨(), s.runs ++ (windowsOf wf bars).map (run params)⟩) := by
  rcases hsane with ⟨hshort, hchecked⟩ | ⟨hspan, hstep, hnext⟩
  · have hout : bars.length < wf.span := hshort.trans_le (Nat.mod_le _ _)
    rw [walkForwardAvg_short hshort hchecked]
    simp [average, windowsOf, hout, evaluate, fixed]
  · rw [walkForwardAvg_long hlen hspan hstep hnext params s hfuel, evalWindows_fixed]
    have hpos : (fittingStarts wf bars.length).length ≠ 0 := by
      rw [fittingStarts_eq hstep hspan, List.length_map, List.length_range]
      exact Nat.succ_ne_zero _
    simp [average, windowsOf, not_lt.2 hspan, List.length_eq_zero_iff.not.1 hpos]

/-- The loop over the choices keeps the best. -/
theorem foldlM_fixed (hlen : bars.length < 2 ^ 64) (hsane : Sane checked wf bars.length)
    (hfuel : lastWindow wf bars.length + 2 ≤ fuel) (combos : List (Params V)) (best : Best V Unit R) :
    combos.foldlM (searchCombo (fixed run) scoreFn checked wf bars fuel) best =
      .ok ⟨(combos.foldl (keepBest (average run scoreFn wf bars)) (best.score, best.params)).1,
        (combos.foldl (keepBest (average run scoreFn wf bars)) (best.score, best.params)).2,
        ⟨(), best.search.runs ++ combos.flatMap fun params => (windowsOf wf bars).map (run params)⟩⟩ := by
  induction combos generalizing best with
  | nil => simp [pure, Except.pure]
  | cons params combos ih =>
    have hone : searchCombo (fixed run) scoreFn checked wf bars fuel best params =
        .ok ⟨(keepBest (average run scoreFn wf bars) (best.score, best.params) params).1,
          (keepBest (average run scoreFn wf bars) (best.score, best.params) params).2,
          ⟨(), best.search.runs ++ (windowsOf wf bars).map (run params)⟩⟩ := by
      simp only [searchCombo, walkForwardAvg_fixed hlen hsane best.search hfuel, bind, Except.bind, keepBest, gt_iff_lt]
      split <;> rfl
    rw [List.foldlM_cons, hone]
    change combos.foldlM _ _ = _
    rw [ih, List.foldl_cons, List.flatMap_cons, List.append_assoc]

/-- **A sane search** is the exhaustive one. -/
theorem gridSearch_fixed (hlen : bars.length < 2 ^ 64) (hsane : Sane checked wf bars.length)
    (hfuel : lastWindow wf bars.length + 2 ≤ fuel) (grid : ParameterGrid V) :
    let best := (cartesianProduct grid.axes).foldl (keepBest (average run scoreFn wf bars)) (decimalMin, [])
    gridSearch (fixed run) scoreFn checked wf bars grid () fuel = .ok {
      bestParams := best.2
      score := best.1
      walkForwardSummary := "train=" ++ toString wf.trainBars ++ " test=" ++ toString wf.testBars ++
        " step=" ++ toString wf.stepBars
      runs := (cartesianProduct grid.axes).flatMap fun params => (windowsOf wf bars).map (run params) } := by
  simp only [gridSearch, foldlM_fixed hlen hsane hfuel, bind, Except.bind, List.nil_append]

/-! ## Scores and their mean -/

theorem windowsOf_ne_nil (hsane : Sane checked wf bars.length) : windowsOf wf bars ≠ [] := by
  unfold windowsOf
  split
  · simp
  · rename_i hspan
    rw [not_lt] at hspan
    rcases hsane with ⟨hshort, -⟩ | ⟨-, hstep, -⟩
    · exact absurd (hshort.trans_le (Nat.mod_le _ _)) (not_lt.2 hspan)
    · rw [fittingStarts_eq hstep hspan]
      simp

/-- The sum of values from `m` on is above that of as many `m` exactly where one value is. -/
theorem mul_length_lt_sum_iff {m : ℚ} {xs : List ℚ} (h : ∀ x ∈ xs, m ≤ x) :
    m * xs.length ≤ xs.sum ∧ (m * xs.length < xs.sum ↔ ∃ x ∈ xs, m < x) := by
  induction xs with
  | nil => simp
  | cons x xs ih =>
    obtain ⟨hx, hxs⟩ := List.forall_mem_cons.1 h
    obtain ⟨hle, hlt⟩ := ih hxs
    rw [List.sum_cons, List.length_cons, Nat.cast_succ, mul_add_one, List.exists_mem_cons_iff, ← hlt]
    refine ⟨by linarith, fun hsum => ?_, ?_⟩
    · by_contra hnone
      rw [not_or, not_lt, not_lt] at hnone
      linarith
    · rintro (hone | hrest)
      · linarith
      · linarith

theorem decimalMin_lt_average_iff (hsane : Sane checked wf bars.length) (hmin : ∀ r, decimalMin ≤ scoreFn r) :
    decimalMin ≤ average run scoreFn wf bars params ∧
      (decimalMin < average run scoreFn wf bars params ↔
        ∃ slice ∈ windowsOf wf bars, decimalMin < scoreFn (run params slice)) := by
  have hpos : (0 : ℚ) < (windowsOf wf bars).length := by
    exact_mod_cast List.length_pos_of_ne_nil (windowsOf_ne_nil hsane)
  have hscores : ∀ x ∈ (windowsOf wf bars).map fun slice => scoreFn (run params slice), decimalMin ≤ x := by
    intro x hx
    obtain ⟨slice, -, rfl⟩ := List.mem_map.1 hx
    exact hmin _
  obtain ⟨hle, hlt⟩ := mul_length_lt_sum_iff hscores
  rw [List.length_map] at hle hlt
  rw [average, le_div_iff₀ hpos, lt_div_iff₀ hpos, hlt]
  simp [hle]

/-! ## Where it finds the best -/

theorem evaluateAll_fixed (jobs : List (Params V × List Bar)) (s : Search Unit R) :
    (evaluateAll (fixed run) s jobs).runs = s.runs ++ jobs.map fun job => run job.1 job.2 := by
  induction jobs generalizing s with
  | nil => simp [evaluateAll]
  | cons job jobs ih =>
    have hone : evaluateAll (fixed run) s (job :: jobs) =
        evaluateAll (fixed run) (evaluate (fixed run) job.1 job.2 s).2 jobs := rfl
    rw [hone, ih]
    simp [evaluate, fixed]

/-- A search that ends with the right runs is sane. -/
theorem sane_of_runs {grid : ParameterGrid V} {out : OptimizationResult V R} (hlen : bars.length < 2 ^ 64)
    (hne : cartesianProduct grid.axes ≠ []) (hends : Ends run scoreFn checked wf bars grid out)
    (hruns : out.runs = (cartesianProduct grid.axes).flatMap fun params => (windowsOf wf bars).map (run params)) :
    Sane checked wf bars.length := by
  apply sane_of_searches hlen hne
  refine ⟨out, hends, fun hspan => ?_⟩
  rw [evaluateAll_fixed, hruns]
  simp [jobs, windowsOf, not_lt.2 hspan, List.map_flatMap, Function.comp_def]

theorem product_right (axes : List (String × List V)) :
    ∃ idx : List (List ℕ), idx.Pairwise (· < ·) ∧
      (∀ c, c ∈ idx ↔ List.Forall₂ (· < ·) c (axes.map (·.2.length))) ∧ cartesianProduct axes = idx.map (choose axes) :=
  ⟨_, choices_sorted _, fun _ => mem_choices, cartesianProduct_eq axes⟩

/-- Where a score is above `Decimal::MIN`, or there is no axis, the loop ends at the first best choice. -/
theorem keepBest_right (hsane : Sane checked wf bars.length) (hmin : ∀ r, decimalMin ≤ scoreFn r)
    {axes : List (String × List V)} {best : ℚ × Params V}
    (hbest : (cartesianProduct axes).foldl (keepBest (average run scoreFn wf bars)) (decimalMin, []) = best) :
    IsFirstMax (average run scoreFn wf bars) (cartesianProduct axes) best.2 ∧
        best.1 = average run scoreFn wf bars best.2 ↔
      axes = [] ∨ ∃ params ∈ cartesianProduct axes, ∃ slice ∈ windowsOf wf bars,
        decimalMin < scoreFn (run params slice) := by
  have hmean (params : Params V) : decimalMin ≤ average run scoreFn wf bars params ∧
      (decimalMin < average run scoreFn wf bars params ↔
        ∃ slice ∈ windowsOf wf bars, decimalMin < scoreFn (run params slice)) := decimalMin_lt_average_iff hsane hmin
  obtain ⟨hstart, hle⟩ | ⟨params, hmax, hlt, hfold⟩ :=
    foldl_keepBest (average run scoreFn wf bars) (decimalMin, []) (cartesianProduct axes)
  · obtain rfl : (decimalMin, []) = best := hstart.symm.trans hbest
    constructor
    · exact fun h => .inl (nil_mem_cartesianProduct_iff.1 h.1.mem)
    · rintro (rfl | ⟨params, hparams, hslice⟩)
      · refine ⟨⟨[], [], rfl, by simp, by simp⟩, ?_⟩
        exact le_antisymm (hmean []).1 (hle [] (by simp [cartesianProduct]))
      · exact absurd ((hmean params).2.2 hslice) (hle params hparams).not_gt
  · obtain rfl : (average run scoreFn wf bars params, params) = best := hfold.symm.trans hbest
    exact ⟨fun _ => .inr ⟨params, hmax.mem, (hmean params).2.1 hlt⟩, fun _ => ⟨hmax, rfl⟩⟩

end fixed

/-- **A search that ends** is the exhaustive one exactly where an axis has no value, or no sum overflows before the loop
over the windows is through, and there is no axis or a score above `Decimal::MIN`. -/
theorem rightSearch_iff {Bar V R : Type} (run : Params V → List Bar → R) (scoreFn : R → ℚ)
    (hmin : ∀ r, decimalMin ≤ scoreFn r) (checked : Bool) (wf : WalkForwardConfig) (bars : List Bar)
    (hlen : bars.length < 2 ^ 64) (grid : ParameterGrid V) (out : OptimizationResult V R)
    (hends : Ends run scoreFn checked wf bars grid out) :
    RightSearch run scoreFn wf bars grid out ↔
      (∃ axis ∈ grid.axes, axis.2 = []) ∨ Sane checked wf bars.length ∧
        (grid.axes = [] ∨ ∃ params ∈ cartesianProduct grid.axes, ∃ slice ∈ windowsOf wf bars,
          decimalMin < scoreFn (run params slice)) := by
  rw [← cartesianProduct_eq_nil_iff]
  obtain ⟨enough, hfuel⟩ := hends
  by_cases hnil : cartesianProduct grid.axes = []
  · have hout := hfuel enough le_rfl
    rw [gridSearch, hnil] at hout
    obtain rfl := Except.ok.inj hout
    refine iff_of_true ⟨product_right _, ?_, fun hne => absurd hnil hne⟩ (.inl hnil)
    rw [hnil]
    rfl
  · have hsearch (hsane : Sane checked wf bars.length) :=
      (gridSearch_fixed hlen hsane (le_max_right enough _) grid).symm.trans (hfuel _ (le_max_left enough _))
    constructor
    · intro h
      have hsane := sane_of_runs hlen hnil ⟨enough, hfuel⟩ h.runs
      obtain rfl := Except.ok.inj (hsearch hsane)
      exact .inr ⟨hsane, (keepBest_right hsane hmin rfl).1 (h.best hnil)⟩
    · rintro (h | ⟨hsane, hscore⟩)
      · exact absurd h hnil
      · obtain rfl := Except.ok.inj (hsearch hsane)
        exact ⟨product_right _, rfl, fun _ => (keepBest_right hsane hmin rfl).2 hscore⟩

/-- A backtest that yields its parameter. -/
def fees (params : Params ℕ) (_ : List ℕ) : ℕ := (params.map (·.2)).sum

theorem shortConfig_sane : Sane true (shortConfig 1) (List.range 6).length := .inr (by decide)

theorem twoFees_right : ∃ out, RightSearch fees (fun fee => fee) (shortConfig 1) (List.range 6) twoFees out := by
  have hmin : ∀ fee : ℕ, decimalMin ≤ fee := fun fee => le_trans (by decide +kernel) (Nat.cast_nonneg fee)
  have hlen : (List.range 6).length < 2 ^ 64 := by decide
  exact ⟨_, (rightSearch_iff fees (fun fee => fee) hmin true (shortConfig 1) (List.range 6) hlen twoFees _
    ⟨_, fun fuel hfuel => gridSearch_fixed hlen shortConfig_sane hfuel twoFees⟩).2
      (.inr ⟨shortConfig_sane, .inr (by decide +kernel)⟩)⟩

/-- Two fees, one window, and a score that is `Decimal::MIN` throughout: the result has no fee. -/
theorem lowest_scores_lose_params :
    ∃ out, Ends fees (fun _ => decimalMin) true (shortConfig 1) (List.range 6) twoFees out ∧
      ¬ RightSearch fees (fun _ => decimalMin) (shortConfig 1) (List.range 6) twoFees out := by
  have hlen : (List.range 6).length < 2 ^ 64 := by decide
  refine ⟨_, ⟨_, fun fuel hfuel => gridSearch_fixed hlen shortConfig_sane hfuel twoFees⟩, fun h => ?_⟩
  obtain ⟨hmax, -⟩ := h.best (by decide)
  have hbest : (cartesianProduct twoFees.axes).foldl
      (keepBest (average fees (fun _ => decimalMin) (shortConfig 1) (List.range 6))) (decimalMin, []) =
        (decimalMin, []) := by decide +kernel
  have hmem := hmax.mem
  rw [hbest] at hmem
  exact absurd hmem (by decide)

end Qtss.Backtest.Optimize
