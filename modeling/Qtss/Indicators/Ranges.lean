import Mathlib.Tactic.FieldSimp
import Mathlib.Tactic.Linarith
import Mathlib.Tactic.Positivity
import Qtss.Indicators.Oscillators
import Qtss.Indicators.Rsi
import Qtss.Lib.ExactFloat
/-
# The ranges of the oscillators (`qtss-indicators/src`)

stochastic.rs, williams_r.rs, cmf.rs, mfi.rs, aroon.rs and rsi.rs are read off fixed scales ("overbought (> -20) / oversold
(< -80)"). On candles of real numbers every entry that is a number lies on its scale (`oscillators_in_range`); a close
outside of its bar, or a negative price, would leave it.
-/

namespace Qtss.Indicators
open Floating Causal

structure Candle where
  high : ℝ
  low : ℝ
  close : ℝ
  volume : ℝ
  low_le_close : low ≤ close
  close_le_high : close ≤ high
  low_nonneg : 0 ≤ low
  volume_nonneg : 0 ≤ volume

def highs (cs : List Candle) : List Exact := cs.map fun c => .fin c.high

def lows (cs : List Candle) : List Exact := cs.map fun c => .fin c.low

def closes (cs : List Candle) : List Exact := cs.map fun c => .fin c.close

def volumes (cs : List Candle) : List Exact := cs.map fun c => .fin c.volume

/-- Not a number, or one between the two. -/
def Within (lo hi : ℝ) (x : Exact) : Prop := x = .nan ∨ ∃ r, x = .fin r ∧ lo ≤ r ∧ r ≤ hi

theorem within_fin {lo hi r : ℝ} (hlo : lo ≤ r) (hhi : r ≤ hi) : Within lo hi (.fin r) := .inr ⟨r, rfl, hlo, hhi⟩

variable {cs : List Candle} {period i j n w : ℕ}

theorem idx_map (f : Candle → ℝ) (h : i < cs.length) : idx (cs.map fun c => Exact.fin (f c)) i = .fin (f cs[i]) := by
  rw [idx, List.getD_eq_getElem _ _ (by simpa using h), List.getElem_map]

theorem idx_highs (h : i < cs.length) : idx (highs cs) i = .fin cs[i].high := idx_map _ h

theorem idx_lows (h : i < cs.length) : idx (lows cs) i = .fin cs[i].low := idx_map _ h

theorem idx_closes (h : i < cs.length) : idx (closes cs) i = .fin cs[i].close := idx_map _ h

theorem idx_volumes (h : i < cs.length) : idx (volumes cs) i = .fin cs[i].volume := idx_map _ h

@[simp] theorem length_highs : (highs cs).length = cs.length := List.length_map _

@[simp] theorem length_lows : (lows cs).length = cs.length := List.length_map _

@[simp] theorem length_closes : (closes cs).length = cs.length := List.length_map _

@[simp] theorem length_volumes : (volumes cs).length = cs.length := List.length_map _

theorem mem_fillFrom {entry : ℕ → Exact} {x : Exact} (h : x ∈ fillFrom Exact.nan w n entry) :
    x = .nan ∨ ∃ i, w ≤ i ∧ i < n ∧ x = entry i := by
  obtain ⟨i, hi, rfl⟩ := List.mem_map.1 h
  by_cases hw : w ≤ i
  · exact .inr ⟨i, hw, List.mem_range.1 hi, if_pos hw⟩
  · exact .inl (if_neg hw)

/-- An entry of a series with its guard is filled in, or worked out in the loop. -/
theorem within_of_entry {p : Prop} [Decidable p] {entry : ℕ → Exact} {lo hi : ℝ}
    (hentry : ¬ p → ∀ i, w ≤ i → i < n → Within lo hi (entry i)) :
    ∀ x ∈ (if p then List.replicate n Exact.nan else fillFrom .nan w n entry), Within lo hi x := by
  intro x hx
  split at hx
  · exact .inl (List.eq_of_mem_replicate hx)
  · next hp =>
    rcases mem_fillFrom hx with rfl | ⟨i, hw, hi, rfl⟩
    · exact .inl rfl
    · exact hentry hp i hw hi

/-! ## The highest and the lowest of a window -/

/-- A loop over the places of a window goes over the slice. -/
theorem foldl_slice {F σ : Type} [Floating F] (op : σ → F → σ) {values : List F} {s k : ℕ} (h : s + k ≤ values.length) (e : σ) :
    (List.range' s k).foldl (fun acc j => op acc (idx values j)) e = ((values.drop s).take k).foldl op e := by
  induction k with
  | zero => simp
  | succ k ih =>
    have hlast : ((values.drop s).take (k + 1)) = (values.drop s).take k ++ [idx values (s + k)] := by
      have hk : k < (values.drop s).length := by
        rw [List.length_drop]
        omega
      rw [List.take_succ_eq_append_getElem hk, List.getElem_drop, idx, List.getD_eq_getElem _ _ (by omega)]
    rw [List.range'_concat, List.foldl_concat, ih (by omega), hlast, List.foldl_concat, Nat.one_mul]

/-- The last one of a pass that keeps the better one, in the order `R`. -/
theorem foldl_best {op : Exact → Exact → Exact} {e : Exact} {g : ℝ → ℝ → ℝ} {R : ℝ → ℝ → Prop} [Std.Refl R] [IsTrans ℝ R]
    (hop : ∀ a b, op (.fin a) (.fin b) = .fin (g a b)) (he : ∀ a, op e (.fin a) = .fin a)
    (hg : ∀ a b, R a (g a b) ∧ R b (g a b)) {xs : List ℝ} (hne : xs ≠ []) :
    ∃ m, (xs.map Exact.fin).foldl op e = .fin m ∧ ∀ x ∈ xs, R x m := by
  induction xs using List.reverseRecOn with
  | nil => exact absurd rfl hne
  | append_singleton xs b ih =>
    rw [List.map_append, List.map_singleton, List.foldl_concat]
    by_cases hxs : xs = []
    · subst hxs
      refine ⟨b, he b, fun x hx => ?_⟩
      rw [List.nil_append, List.mem_singleton] at hx
      rw [hx]
      exact Std.Refl.refl b
    · obtain ⟨m, hm, hall⟩ := ih hxs
      refine ⟨g m b, by rw [hm, hop], fun x hx => ?_⟩
      rcases List.mem_append.1 hx with hx | hx
      · exact IsTrans.trans _ _ _ (hall x hx) (hg m b).1
      · rw [List.mem_singleton.1 hx]
        exact (hg m b).2

/-- The slice of the window of a candle, which has the candle itself. -/
theorem slice_map (f : Candle → ℝ) (hperiod : 0 < period) (hw : period - 1 ≤ i) (hi : i < cs.length) :
    ∃ xs : List ℝ, (((cs.map fun c => Exact.fin (f c)).drop (i + 1 - period)).take period = xs.map Exact.fin) ∧
      f cs[i] ∈ xs := by
  refine ⟨((cs.map f).drop (i + 1 - period)).take period, ?_, ?_⟩
  · rw [List.map_take, List.map_drop, List.map_map]
    rfl
  · refine List.mem_iff_getElem.2 ⟨period - 1, ?_, ?_⟩
    · rw [List.length_take, List.length_drop, List.length_map]
      omega
    · rw [List.getElem_take, List.getElem_drop, List.getElem_map]
      congr 2
      omega

theorem best_of_window {op : Exact → Exact → Exact} {e : Exact} {g : ℝ → ℝ → ℝ} (R : ℝ → ℝ → Prop) [Std.Refl R]
    [IsTrans ℝ R] (hop : ∀ a b, op (.fin a) (.fin b) = .fin (g a b)) (he : ∀ a, op e (.fin a) = .fin a)
    (hg : ∀ a b, R a (g a b) ∧ R b (g a b)) (f : Candle → ℝ) (hperiod : 0 < period) (hw : period - 1 ≤ i)
    (hi : i < cs.length) :
    ∃ m, (((cs.map fun c => Exact.fin (f c)).drop (i + 1 - period)).take period).foldl op e = .fin m ∧ R (f cs[i]) m := by
  obtain ⟨xs, hxs, hmem⟩ := slice_map f hperiod hw hi
  obtain ⟨m, hm, hall⟩ := foldl_best hop he hg (List.ne_nil_of_mem hmem)
  exact ⟨m, by rw [hxs, hm], hall _ hmem⟩

instance refl_ge : Std.Refl (α := ℝ) (· ≥ ·) := ⟨fun a => le_refl a⟩

theorem highest_highs (hperiod : 0 < period) (hw : period - 1 ≤ i) (hi : i < cs.length) :
    ∃ m, highest (highs cs) period i = .fin m ∧ cs[i].high ≤ m := by
  unfold highest
  rw [foldl_slice (fun hh v => if lt hh v then v else hh) (by rw [length_highs]; omega)]
  refine best_of_window (g := max) (· ≤ ·) (fun a b => ?_) (fun a => rfl)
    (fun a b => ⟨le_max_left a b, le_max_right a b⟩) Candle.high hperiod hw hi
  by_cases h : a < b
  · simp [h, max_eq_right h.le]
  · simp [h, max_eq_left (not_lt.1 h)]

theorem lowest_lows (hperiod : 0 < period) (hw : period - 1 ≤ i) (hi : i < cs.length) :
    ∃ m, lowest (lows cs) period i = .fin m ∧ m ≤ cs[i].low := by
  unfold lowest
  rw [foldl_slice (fun ll v => if lt v ll then v else ll) (by rw [length_lows]; omega)]
  refine best_of_window (g := min) (· ≥ ·) (fun a b => ?_) (fun a => rfl)
    (fun a b => ⟨min_le_left a b, min_le_right a b⟩) Candle.low hperiod hw hi
  by_cases h : b < a
  · simp [h, min_eq_right h.le]
  · simp [h, min_eq_left (not_lt.1 h)]

/-- The place of a close between the highest and the lowest. -/
theorem place_mem_Icc {hh ll c : ℝ} (hc : c ≤ hh) (hl : ll ≤ c) (h : 0 < hh - ll) :
    0 ≤ (hh - c) / (hh - ll) ∧ (hh - c) / (hh - ll) ≤ 1 := by
  constructor
  · exact div_nonneg (by linarith) h.le
  · rw [div_le_one h]
    linarith

theorem williamsR_within : ∀ x ∈ williamsR (highs cs) (lows cs) (closes cs) period, Within (-100) 0 x := by
  unfold williamsR
  simp only [length_closes, length_highs, length_lows, Nat.min_self, Exact.nan_eq]
  refine within_of_entry fun hguard i hw hi => ?_
  obtain ⟨hh, hhh, hhigh⟩ := highest_highs (by omega) hw hi
  obtain ⟨ll, hll, hlow⟩ := lowest_lows (by omega) hw hi
  have hc := cs[i].close_le_high
  have hl := cs[i].low_le_close
  rw [hhh, hll, idx_closes hi]
  simp only [Exact.fin_sub, Exact.lit_eq, Exact.lt_fin, decide_eq_true_eq, Rat.cast_zero]
  split
  · next hpos =>
    obtain ⟨h0, h1⟩ := place_mem_Icc (hc.trans hhigh) (hlow.trans hl) hpos
    rw [Exact.fin_mul, Exact.fin_div hpos.ne', mul_div_assoc]
    push_cast
    exact within_fin (by linarith) (by linarith)
  · exact within_fin (by norm_num) le_rfl

theorem stochasticK_within {dPeriod : ℕ} :
    ∀ x ∈ (stochastic (highs cs) (lows cs) (closes cs) period dPeriod).k, Within 0 100 x := by
  unfold stochastic
  simp only [length_closes, apply_ite StochasticResult.k, Exact.nan_eq]
  refine within_of_entry fun hguard i hw hi => ?_
  have hperiod : 0 < period := by omega
  obtain ⟨hh, hhh, hhigh⟩ := best_of_window (e := .negInf) (g := max) (· ≤ ·)
    (fun a b => Exact.max_fin) (fun a => rfl) (fun a b => ⟨le_max_left a b, le_max_right a b⟩) Candle.high
    hperiod hw hi
  obtain ⟨ll, hll, hlow⟩ := best_of_window (e := .posInf) (g := min) (· ≥ ·)
    (fun a b => Exact.min_fin) (fun a => rfl) (fun a b => ⟨min_le_left a b, min_le_right a b⟩) Candle.low
    hperiod hw hi
  have hc := cs[i].close_le_high
  have hl := cs[i].low_le_close
  unfold stochasticK highs lows
  simp only [Exact.negInfinity_eq, Exact.infinity_eq]
  rw [hhh, hll, idx_closes hi]
  simp only [Exact.fin_sub, Exact.lit_eq, Exact.abs_fin, Exact.lt_fin, decide_eq_true_eq]
  split
  · exact within_fin (by norm_num) (by norm_num)
  · next hwide =>
    have hpos : 0 < hh - ll := by
      by_contra hnot
      have hzero : hh - ll = 0 := by linarith
      exact hwide (by rw [hzero]; norm_num)
    obtain ⟨h0, h1⟩ := place_mem_Icc (hc.trans hhigh) (hlow.trans hl) hpos
    have hplace : (cs[i].close - ll) / (hh - ll) = 1 - (hh - cs[i].close) / (hh - ll) := by
      field_simp
      ring
    rw [Exact.fin_div hpos.ne', Exact.fin_mul, hplace]
    push_cast
    exact within_fin (by linarith) (by linarith)

theorem mfv_bound (hi : i < cs.length) :
    ∃ r, moneyFlowVolume (highs cs) (lows cs) (closes cs) (volumes cs) i = .fin r ∧ |r| ≤ cs[i].volume := by
  have hc := cs[i].close_le_high
  have hl := cs[i].low_le_close
  have hv := cs[i].volume_nonneg
  unfold moneyFlowVolume
  rw [idx_highs hi, idx_lows hi, idx_closes hi, idx_volumes hi]
  simp only [Exact.fin_sub, Exact.lit_eq, Exact.lt_fin, decide_eq_true_eq, Rat.cast_zero]
  split
  · next hpos =>
    rw [Exact.fin_div hpos.ne', Exact.fin_mul]
    refine ⟨_, rfl, ?_⟩
    have hplace : |(cs[i].close - cs[i].low - (cs[i].high - cs[i].close)) / (cs[i].high - cs[i].low)| ≤ 1 := by
      rw [abs_div, abs_of_pos hpos, div_le_one hpos, abs_le]
      constructor <;> linarith
    rw [abs_mul, abs_of_nonneg hv]
    exact mul_le_of_le_one_right hv hplace
  · exact ⟨0, rfl, by rw [abs_zero]; exact hv⟩

theorem cmf_within : ∀ x ∈ cmf (highs cs) (lows cs) (closes cs) (volumes cs) period, Within (-1) 1 x := by
  unfold cmf
  simp only [length_closes, length_volumes, Nat.min_self, Exact.nan_eq]
  refine within_of_entry fun hguard i hw hi => ?_
  have hsums : ∀ js : List ℕ, (∀ j ∈ js, j < cs.length) → ∃ m v,
      js.foldl (fun acc j => acc + idx ((List.range cs.length).map
        (moneyFlowVolume (highs cs) (lows cs) (closes cs) (volumes cs))) j) (lit 0) = .fin m ∧
      js.foldl (fun acc j => acc + idx (volumes cs) j) (lit 0) = .fin v ∧ |m| ≤ v := by
    intro js
    induction js using List.reverseRecOn with
    | nil => intro _; exact ⟨0, 0, by simp, by simp, by simp⟩
    | append_singleton js k ih =>
      intro hjs
      have hk : k < cs.length := hjs k (by simp)
      obtain ⟨m, v, hm, hv, hle⟩ := ih fun j hj => hjs j (by simp [hj])
      obtain ⟨r, hr, hbound⟩ := mfv_bound hk
      have hidx : idx ((List.range cs.length).map
          (moneyFlowVolume (highs cs) (lows cs) (closes cs) (volumes cs))) k = .fin r := by
        rw [idx, List.getD_eq_getElem _ _ (by simpa using hk), List.getElem_map, List.getElem_range, hr]
      refine ⟨m + r, v + cs[k].volume, ?_, ?_, ?_⟩
      · rw [List.foldl_concat, hm, hidx, Exact.fin_add]
      · rw [List.foldl_concat, hv, idx_volumes hk, Exact.fin_add]
      · exact (abs_add_le m r).trans (add_le_add hle hbound)
  obtain ⟨m, v, hm, hv, hle⟩ := hsums (List.range' (i + 1 - period) period) fun j hj => by
    rw [List.mem_range'_1] at hj
    omega
  rw [hm, hv]
  simp only [Exact.lit_eq, Exact.lt_fin, decide_eq_true_eq, Rat.cast_zero]
  split
  · next hpos =>
    rw [Exact.fin_div hpos.ne']
    obtain ⟨hlo, hhi⟩ := abs_le.1 hle
    exact within_fin (by rw [le_div_iff₀ hpos]; linarith) (by rw [div_le_one hpos]; exact hhi)
  · exact within_fin (by norm_num) (by norm_num)

theorem typicalPrice (hi : i < cs.length) :
    ∃ r, idx (typicalPrices (highs cs) (lows cs) (closes cs)) i = .fin r ∧ 0 ≤ r := by
  have hlow := cs[i].low_nonneg
  have hc := cs[i].close_le_high
  have hl := cs[i].low_le_close
  refine ⟨(cs[i].high + cs[i].low + cs[i].close) / (3 : ℚ), ?_, by push_cast; linarith⟩
  rw [idx, List.getD_eq_getElem _ _ (by simpa [typicalPrices] using hi)]
  simp only [typicalPrices, List.getElem_map, List.getElem_range, idx_highs hi, idx_lows hi, idx_closes hi,
    Exact.fin_add, Exact.lit_eq]
  rw [Exact.fin_div (by norm_num)]

/-- A quotient of flows on the scale of an index: 100 where nothing flows the other way. -/
theorem index_mem_Icc {pos neg : ℝ} (hpos : 0 ≤ pos) (hneg : 0 < neg) :
    (1 + pos / neg) ≠ 0 ∧ 0 ≤ 100 - 100 / (1 + pos / neg) ∧ 100 - 100 / (1 + pos / neg) ≤ 100 := by
  have hratio : 0 ≤ pos / neg := div_nonneg hpos hneg.le
  have hden : 0 < 1 + pos / neg := by linarith
  have hle : 100 / (1 + pos / neg) ≤ 100 := by
    rw [div_le_iff₀ hden]
    linarith
  have hnonneg : 0 ≤ 100 / (1 + pos / neg) := by positivity
  exact ⟨hden.ne', by linarith, by linarith⟩

theorem mfi_within : ∀ x ∈ mfi (highs cs) (lows cs) (closes cs) (volumes cs) period, Within 0 100 x := by
  unfold mfi
  simp only [length_closes, Exact.nan_eq]
  refine within_of_entry fun hguard i hw hi => ?_
  have hflows : ∀ js : List ℕ, (∀ j ∈ js, j < cs.length) → ∃ p n,
      js.foldl (moneyFlow (typicalPrices (highs cs) (lows cs) (closes cs)) (volumes cs)) (lit 0, lit 0) = (.fin p, .fin n) ∧
      0 ≤ p ∧ 0 ≤ n := by
    intro js
    induction js using List.reverseRecOn with
    | nil => intro _; exact ⟨0, 0, by simp, le_rfl, le_rfl⟩
    | append_singleton js k ih =>
      intro hjs
      have hk : k < cs.length := hjs k (by simp)
      obtain ⟨p, n, hpn, hp, hn⟩ := ih fun j hj => hjs j (by simp [hj])
      obtain ⟨tp, htp, htp0⟩ := typicalPrice hk
      have hmf : 0 ≤ tp * cs[k].volume := mul_nonneg htp0 cs[k].volume_nonneg
      rw [List.foldl_concat, hpn, moneyFlow, htp, idx_volumes hk]
      dsimp only
      rw [Exact.fin_mul]
      split
      · exact ⟨p + tp * cs[k].volume, n, by rw [Exact.fin_add], by linarith, hn⟩
      · split
        · exact ⟨p, n + tp * cs[k].volume, by rw [Exact.fin_add], hp, by linarith⟩
        · exact ⟨p, n, rfl, hp, hn⟩
  obtain ⟨p, n, hpn, hp, hn⟩ := hflows (List.range' (i + 1 - period) period) fun j hj => by
    rw [List.mem_range'_1] at hj
    omega
  rw [hpn]
  simp only [Exact.abs_fin, Exact.lit_eq, Exact.lt_fin, decide_eq_true_eq]
  split
  · exact within_fin (by norm_num) (by norm_num)
  · next hwide =>
    have hpos : 0 < n := by
      refine lt_of_le_of_ne hn fun hzero => hwide ?_
      rw [← hzero]
      norm_num
    obtain ⟨hne, h0, h1⟩ := index_mem_Icc hp hpos
    rw [Exact.fin_div hpos.ne', Exact.fin_add, Exact.fin_div (by push_cast; exact hne), Exact.fin_sub]
    push_cast
    exact within_fin h0 h1

theorem aroonLine_within (since : ℕ) (hperiod : 0 < period) (h : since ≤ period) :
    ∃ r : ℝ, (aroonLine period since : Exact) = .fin r ∧ 0 ≤ r ∧ r ≤ 100 := by
  have hp : (0 : ℝ) < period := by exact_mod_cast hperiod
  have hs : (since : ℝ) ≤ period := by exact_mod_cast h
  have hs0 : (0 : ℝ) ≤ since := since.cast_nonneg
  unfold aroonLine
  simp only [Exact.lit_eq, Exact.fin_sub, Exact.fin_mul]
  push_cast
  rw [Exact.fin_div hp.ne']
  refine ⟨_, rfl, div_nonneg (by nlinarith) hp.le, ?_⟩
  rw [div_le_iff₀ hp]
  nlinarith

theorem aroon_within (period : ℕ) (highs lows : List Exact) :
    (∀ x ∈ (aroon highs lows period).up, Within 0 100 x) ∧ (∀ x ∈ (aroon highs lows period).down, Within 0 100 x) ∧
      ∀ x ∈ (aroon highs lows period).osc, Within (-100) 100 x := by
  have hsince : ∀ {better : ℕ → ℕ → Bool} {i}, period ≤ i → i - (List.range' (i - period) (period + 1)).foldl
      (fun best j => if better best j then j else best) (i - period) ≤ period := by
    intro better i hw
    have := search_mem better hw
    omega
  unfold aroon
  simp only [Exact.nan_eq]
  refine ⟨within_of_entry fun hguard i hw hi => ?_, within_of_entry fun hguard i hw hi => ?_,
    within_of_entry fun hguard i hw hi => ?_⟩
  · obtain ⟨r, hr, h0, h1⟩ := aroonLine_within _ (by omega) (hsince hw)
    exact .inr ⟨r, hr, h0, h1⟩
  · obtain ⟨r, hr, h0, h1⟩ := aroonLine_within _ (by omega) (hsince hw)
    exact .inr ⟨r, hr, h0, h1⟩
  · obtain ⟨u, hu, hu0, hu1⟩ := aroonLine_within (i - lastHighest highs period i) (by omega) (hsince hw)
    obtain ⟨d, hd, hd0, hd1⟩ := aroonLine_within (i - lastLowest lows period i) (by omega) (hsince hw)
    rw [hu, hd, Exact.fin_sub]
    exact within_fin (by linarith) (by linarith)

/-! ## Averages of gains and losses -/

section rsi

/-- Two averages that are not negative. -/
def Averages (avg : Exact × Exact) : Prop := ∃ g l : ℝ, avg = (.fin g, .fin l) ∧ 0 ≤ g ∧ 0 ≤ l

theorem rsiValue_within {avg : Exact × Exact} (h : Averages avg) : Within 0 100 (rsiValue avg.1 avg.2) := by
  obtain ⟨g, l, rfl, hg, hl⟩ := h
  unfold rsiValue Floating.eq
  simp only [Exact.lit_eq, Exact.le_fin, Bool.and_eq_true, decide_eq_true_eq, Rat.cast_zero]
  split
  · exact within_fin (by norm_num) (by norm_num)
  · next hne =>
    have hpos : 0 < l := lt_of_le_of_ne hl fun hzero => hne ⟨hzero.symm.le, hl⟩
    obtain ⟨hden, h0, h1⟩ := index_mem_Icc hg hpos
    rw [Exact.fin_div hpos.ne', Exact.fin_add, Exact.fin_div (by push_cast; exact hden), Exact.fin_sub]
    push_cast
    exact within_fin h0 h1

theorem change (cs : List Candle) (hi : i < cs.length) : ∃ d, idx (closes cs) i - idx (closes cs) (i - 1) = .fin d := by
  rw [idx_closes hi, idx_closes (by omega), Exact.fin_sub]
  exact ⟨_, rfl⟩

theorem rsiSeed_averages (h : period < cs.length) : Averages (rsiSeed (closes cs) period) := by
  unfold rsiSeed
  refine List.foldlRecOn (motive := Averages) _ _ ⟨0, 0, by simp, le_rfl, le_rfl⟩ fun avg havg i hi => ?_
  rw [List.mem_range'_1] at hi
  obtain ⟨g, l, rfl, hg, hl⟩ := havg
  obtain ⟨d, hd⟩ := change cs (i := i) (by omega)
  rw [hd]
  simp only [Exact.lit_eq, Exact.le_fin, decide_eq_true_eq, Rat.cast_zero]
  split
  · exact ⟨g + d, l, by rw [Exact.fin_add], by linarith, hl⟩
  · exact ⟨g, l - d, by rw [Exact.fin_sub], hg, by linarith⟩

theorem averages_div {avg : Exact × Exact} (h : Averages avg) (hperiod : 0 < period) :
    Averages (avg.1 / lit period, avg.2 / lit period) := by
  obtain ⟨g, l, rfl, hg, hl⟩ := h
  have hp : (0 : ℝ) < ((period : ℚ) : ℝ) := by exact_mod_cast hperiod
  refine ⟨g / ((period : ℚ) : ℝ), l / ((period : ℚ) : ℝ), ?_, div_nonneg hg hp.le, div_nonneg hl hp.le⟩
  rw [Exact.lit_eq, Exact.fin_div hp.ne', Exact.fin_div hp.ne']

/-- One more change. -/
theorem averages_smooth {g l p u v : ℝ} (hg : 0 ≤ g) (hl : 0 ≤ l) (hp : 1 ≤ p) (hu : 0 ≤ u) (hv : 0 ≤ v) :
    0 ≤ (g * (p - 1) + u) / p ∧ 0 ≤ (l * (p - 1) + v) / p := by
  have hp1 : 0 ≤ p - 1 := by linarith
  exact ⟨div_nonneg (by positivity) (by linarith), div_nonneg (by positivity) (by linarith)⟩

theorem rsi_within : ∀ x ∈ rsi (closes cs) period, Within 0 100 x := by
  intro x hx
  unfold rsi at hx
  simp only [length_closes] at hx
  split at hx
  · exact .inl (List.eq_of_mem_replicate hx)
  · next hguard =>
    have hlong : period < cs.length := by omega
    have hperiod : 0 < period := by omega
    have hseed := averages_div (rsiSeed_averages hlong) hperiod
    rcases List.mem_append.1 hx with hx | hx
    · exact .inl (List.eq_of_mem_replicate hx)
    · rcases List.mem_cons.1 hx with rfl | hx
      · exact rsiValue_within hseed
      · refine forall_mem_scan (P := Averages) (Q := Within 0 100) (fun avg i hi havg => ?_) hseed x hx
        rw [List.mem_range'_1] at hi
        have hp : (1 : ℝ) ≤ ((period : ℚ) : ℝ) := by
          have : 1 ≤ period := by omega
          exact_mod_cast this
        obtain ⟨g, l, rfl, hg, hl⟩ := havg
        obtain ⟨d, hd⟩ := change cs (i := i) (by omega)
        have hnext : ∀ u v : ℝ, 0 ≤ u → 0 ≤ v →
            Averages ((Exact.fin g * (lit period - lit 1) + Exact.fin u) / lit period,
              (Exact.fin l * (lit period - lit 1) + Exact.fin v) / lit period) := by
          intro u v hu hv
          obtain ⟨h1, h2⟩ := averages_smooth hg hl hp hu hv
          refine ⟨_, _, ?_, h1, h2⟩
          simp only [Exact.lit_eq, Exact.fin_sub, Exact.fin_mul, Exact.fin_add, Rat.cast_one]
          rw [Exact.fin_div (by linarith), Exact.fin_div (by linarith)]
        rw [hd]
        simp only
        split
        · next h =>
          have hd0 : 0 ≤ d := by simpa using h
          have hgain := hnext d 0 hd0 le_rfl
          rw [show (Exact.fin (0 : ℝ)) = lit 0 by simp] at hgain
          exact ⟨hgain, rsiValue_within hgain⟩
        · next h =>
          have hd0 : d < 0 := by simpa using h
          have hloss := hnext 0 (-d) le_rfl (by linarith)
          rw [show (Exact.fin (0 : ℝ)) = lit 0 by simp, ← Exact.neg_fin] at hloss
          exact ⟨hloss, rsiValue_within hloss⟩

end rsi

/-- **Every oscillator stays on its scale.** -/
theorem oscillators_in_range (cs : List Candle) (period dPeriod : ℕ) :
    (∀ x ∈ rsi (closes cs) period, Within 0 100 x) ∧
    (∀ x ∈ (stochastic (highs cs) (lows cs) (closes cs) period dPeriod).k, Within 0 100 x) ∧
    (∀ x ∈ williamsR (highs cs) (lows cs) (closes cs) period, Within (-100) 0 x) ∧
    (∀ x ∈ mfi (highs cs) (lows cs) (closes cs) (volumes cs) period, Within 0 100 x) ∧
    (∀ x ∈ cmf (highs cs) (lows cs) (closes cs) (volumes cs) period, Within (-1) 1 x) ∧
    (∀ x ∈ (aroon (highs cs) (lows cs) period).up, Within 0 100 x) ∧
    (∀ x ∈ (aroon (highs cs) (lows cs) period).down, Within 0 100 x) ∧
    ∀ x ∈ (aroon (highs cs) (lows cs) period).osc, Within (-100) 100 x := by
  obtain ⟨hup, hdown, hosc⟩ := aroon_within period (highs cs) (lows cs)
  exact ⟨rsi_within, stochasticK_within, williamsR_within, mfi_within, cmf_within, hup, hdown, hosc⟩

end Qtss.Indicators
