import Qtss.Indicators.Oscillators
/-
# Where indicators are no numbers (`qtss-indicators/src`)

A running sum does not recover from a NaN, so that one NaN among the values leaves no number behind it (`sma_poison`,
`ema_poison`). The warm-up of one indicator is such a NaN for the next: stochastic.rs:32-34 averages its line from the first
bar on and macd.rs:32-34 its own from the place where the slow average starts, which is early where the fast one is slower.
-/

namespace Qtss.Indicators
open Floating Causal

variable {F : Type} [Floating F] {values : List F} {period i j n w : ℕ}

/-- A loop that carries a NaN from the start, or has read one. -/
theorem isNan_carry {step : F → ℕ → F × F} {s : F} (hkeep : ∀ s i, isNan s = true → isNan (step s i).1 = true)
    (hread : isNan s = true ∨ w ≤ j ∧ ∀ s, isNan (step s j).1 = true) {k : ℕ} (hk : j < w + k) :
    isNan (carry step s (List.range' w k)) = true := by
  induction k with
  | zero =>
    rcases hread with hs | ⟨hw, -⟩
    · exact hs
    · omega
  | succ k ih =>
    rw [carry_concat]
    by_cases hlast : j = w + k
    · rcases hread with hs | ⟨-, hread⟩
      · subst hlast
        have hcarry : isNan (carry step s (List.range' w k)) = true := by
          clear hk ih
          induction k with
          | zero => exact hs
          | succ k ih =>
            rw [carry_concat]
            exact hkeep _ _ ih
        exact hkeep _ _ hcarry
      · rw [← hlast]
        exact hread _
    · exact hkeep _ _ (ih (by omega))

variable [NanPropagates F]

/-- A series that starts with `first` after its warm-up, and carries on from there. -/
theorem isNan_warm {first start : F} {step : F → ℕ → F × F} (hi : i < n) (hji : j ≤ i)
    (hfirst : j ≤ w → isNan first = true ∧ isNan start = true)
    (hkeep : ∀ s i, isNan s = true → isNan (step s i).1 = true)
    (hread : ∀ s, w < j → isNan (step s j).1 = true)
    (hout : ∀ s i, isNan (step s i).1 = true → isNan (step s i).2 = true) :
    isNan (idx (List.replicate w nan ++ first :: scan step start (List.range' (w + 1) (n - (w + 1)))) i) = true := by
  unfold idx
  by_cases hwarm : i < w
  · rw [List.getD_append _ _ _ _ (by simpa using hwarm)]
    simp [hwarm]
  · rw [List.getD_append_right _ _ _ _ (by simpa using hwarm), List.length_replicate]
    by_cases hone : i = w
    · rw [hone, Nat.sub_self]
      exact (hfirst (by omega)).1
    · obtain ⟨m, rfl⟩ : ∃ m, i = w + 1 + m := ⟨i - (w + 1), by omega⟩
      rw [show w + 1 + m - w = m + 1 by omega, List.getD_cons_succ, List.getD_eq_getElem?_getD,
        getElem?_scan _ _ (by omega), Option.getD_some]
      refine hout _ _ ?_
      rw [← carry_concat]
      refine isNan_carry (j := j) hkeep ?_ (by omega)
      by_cases hj : j ≤ w
      · exact .inl (hfirst hj).2
      · exact .inr ⟨by omega, fun s => hread s (by omega)⟩

theorem isNan_idx_replicate : isNan (idx (List.replicate n (nan : F)) i) = true := by
  simp [idx, List.getD_eq_getElem?_getD, List.getElem?_replicate]
  split <;> simp

theorem isNan_sum_take {p : ℕ} (hj : j < p) (hjn : j < values.length) (hnan : isNan (idx values j) = true) :
    isNan (sum (values.take p)) = true := by
  refine isNan_sum (x := idx values j) ?_ hnan
  rw [idx, List.getD_eq_getElem _ _ hjn]
  exact List.mem_iff_getElem.2 ⟨j, by rw [List.length_take]; omega, by simp⟩

/-- No number after a NaN. -/
theorem isNan_sma (hnan : isNan (idx values j) = true) (hji : j ≤ i) (hi : i < values.length) (period : ℕ) :
    isNan (idx (sma values period) i) = true := by
  unfold sma
  simp only
  split
  · exact isNan_idx_replicate
  · next hguard =>
    obtain ⟨p, rfl⟩ : ∃ p, period = p + 1 := ⟨period - 1, by omega⟩
    rw [Nat.add_sub_cancel]
    refine isNan_warm hi hji (fun hj => ?_) (fun s i hs => NanPropagates.add (.inl hs))
      (fun s hj => NanPropagates.add (.inr (NanPropagates.sub (.inl hnan)))) fun s i hs => NanPropagates.div (.inl hs)
    have hsum := isNan_sum_take (p := p + 1) (by omega) (by omega) hnan
    exact ⟨NanPropagates.div (.inl hsum), hsum⟩

theorem isNan_ema (hnan : isNan (idx values j) = true) (hji : j ≤ i) (hi : i < values.length) (period : ℕ) :
    isNan (idx (ema values period) i) = true := by
  unfold ema
  simp only
  split
  · exact isNan_idx_replicate
  · next hguard =>
    obtain ⟨p, rfl⟩ : ∃ p, period = p + 1 := ⟨period - 1, by omega⟩
    rw [Nat.add_sub_cancel]
    refine isNan_warm hi hji (fun hj => ?_) (fun s i hs => NanPropagates.add (.inr (NanPropagates.mul (.inl hs))))
      (fun s hj => NanPropagates.add (.inl (NanPropagates.mul (.inl hnan)))) fun s i hs => hs
    have hsum := isNan_sum_take (p := p + 1) (by omega) (by omega) hnan
    exact ⟨NanPropagates.div (.inl hsum), NanPropagates.div (.inl hsum)⟩

/-- A series without a number. -/
theorem eq_replicate_nan {series : List F} (hn : series.length = n) (h : ∀ i < n, isNan (idx series i) = true) :
    series = List.replicate n nan := by
  refine List.eq_replicate_iff.2 ⟨hn, fun b hb => ?_⟩
  obtain ⟨i, hi, rfl⟩ := List.mem_iff_getElem.1 hb
  have hidx := h i (hn ▸ hi)
  rw [idx, List.getD_eq_getElem _ _ hi] at hidx
  exact NanPropagates.isNan_iff.1 hidx

theorem isNan_idx_fillFrom (entry : ℕ → F) (h : i < w) : isNan (idx (fillFrom nan w n entry) i) = true := by
  unfold idx
  rw [List.getD_eq_getElem?_getD]
  by_cases hn : i < n
  · rw [getElem?_fillFrom hn, if_neg (by omega)]
    simp
  · rw [List.getElem?_eq_none (by rw [length_fillFrom]; omega)]
    simp

/-- Entries that are no numbers are the same NaN. -/
theorem map_nan (series : List F) : series.map (fun v => if isNan v then nan else v) = series := by
  have hid : ∀ v ∈ series, (if isNan v = true then nan else v) = v := by
    intro v _
    split
    · next h => exact (NanPropagates.isNan_iff.1 h).symm
    · rfl
  simpa using List.map_congr_left hid

/-- The line that the stochastic averages starts with its warm-up. -/
theorem stochastic_d (highs lows closes : List F) {kPeriod : ℕ} (hk : 2 ≤ kPeriod) (dPeriod : ℕ) :
    (stochastic highs lows closes kPeriod dPeriod).d = List.replicate closes.length nan := by
  unfold stochastic
  simp only
  split
  · rfl
  · have hlength := length_fillFrom nan (kPeriod - 1) closes.length (stochasticK highs lows closes kPeriod)
    have hnan : isNan (idx (fillFrom nan (kPeriod - 1) closes.length (stochasticK highs lows closes kPeriod)) 0) = true :=
      isNan_idx_fillFrom _ (by omega)
    rw [map_nan]
    exact eq_replicate_nan (((causal_sma dPeriod).length _).trans hlength) fun i hi =>
      isNan_sma hnan (Nat.zero_le i) (hlength.symm ▸ hi) dPeriod

/-- In the warm-up, which does not end where the period is zero. -/
theorem isNan_ema_warm (hi : i < period - 1 ∨ period = 0) : isNan (idx (ema values period) i) = true := by
  unfold ema
  simp only
  split
  · exact isNan_idx_replicate
  · rw [idx, List.getD_append _ _ _ _ (by simp; omega)]
    exact isNan_idx_replicate

theorem isNan_macdLine {fast slow : ℕ} (h : isNan (idx (ema values fast) i) = true ∨ isNan (idx (ema values slow) i) = true) :
    isNan (idx (macdLine values fast slow) i) = true := by
  unfold macdLine
  rw [idx, List.getD_eq_getElem?_getD, List.getElem?_map]
  by_cases hn : i < values.length
  · simp [hn, h]
  · simp [hn]

/-- The signal line is worked out from the place on where the slow average starts. -/
theorem macd_signalLine {fast slow : ℕ} (hfast : slow < fast) (signalPeriod : ℕ) :
    (macdSeries values fast slow signalPeriod).signalLine = List.replicate values.length nan := by
  have hline : (macdLine values fast slow).length = values.length := by simp [macdLine]
  have hnan : isNan (idx ((macdLine values fast slow).drop (slow - 1)) 0) = true := by
    have hstart : isNan (idx (macdLine values fast slow) (slow - 1)) = true := by
      by_cases hslow : slow = 0
      · exact isNan_macdLine (.inr (isNan_ema_warm (.inr hslow)))
      · exact isNan_macdLine (.inl (isNan_ema_warm (.inl (by omega))))
    unfold idx at hstart ⊢
    rwa [List.getD_eq_getElem?_getD, List.getElem?_drop, Nat.add_zero, ← List.getD_eq_getElem?_getD]
  have hema : ema ((macdLine values fast slow).drop (slow - 1)) signalPeriod =
      List.replicate (values.length - (slow - 1)) nan := by
    have hlength : ((macdLine values fast slow).drop (slow - 1)).length = values.length - (slow - 1) := by
      rw [List.length_drop, hline]
    exact eq_replicate_nan (((causal_ema signalPeriod).length _).trans hlength) fun i hi =>
      isNan_ema hnan (Nat.zero_le i) (hlength.symm ▸ hi) signalPeriod
  unfold macdSeries signalLine
  simp only
  rw [hema, hline, List.replicate_append_replicate]
  congr 1
  omega

/-- **No number after a NaN.** An average of values has no number from the first NaN on. So the smoothed line of the
stochastic has none at all, and neither has the signal line of a MACD whose fast average is the slower one. -/
theorem no_number_after_nan (F : Type) [Floating F] [NanPropagates F] :
    (∀ (values : List F) (period i j : ℕ), isNan (idx values j) = true → j ≤ i → i < values.length →
      isNan (idx (sma values period) i) = true ∧ isNan (idx (ema values period) i) = true) ∧
    (∀ (highs lows closes : List F) (kPeriod dPeriod : ℕ), 2 ≤ kPeriod →
      (stochastic highs lows closes kPeriod dPeriod).d = List.replicate closes.length nan) ∧
    (∀ (values : List F) (fast slow signalPeriod : ℕ) (r : MacdResult F), slow < fast →
      macd values fast slow signalPeriod = some r → r.signalLine = List.replicate values.length nan) := by
  refine ⟨fun values period i j hnan hji hi => ⟨isNan_sma hnan hji hi period, isNan_ema hnan hji hi period⟩,
    fun highs lows closes kPeriod dPeriod hk => stochastic_d highs lows closes hk dPeriod,
    fun values fast slow signalPeriod r hfast hr => ?_⟩
  rw [macd_eq] at hr
  split at hr
  · cases hr
  · obtain rfl := Option.some.inj hr
    exact macd_signalLine hfast signalPeriod

theorem no_number_after_nan_doubles :
    (stochastic (F := F64) [.fin 3, .fin 4, .fin 5] [.fin 1, .fin 2, .fin 3] [.fin 2, .fin 3, .fin 4] 2 1).d =
      [nan, nan, nan] :=
  (no_number_after_nan F64).2.1 _ _ _ 2 1 (Nat.le_refl 2)

end Qtss.Indicators
