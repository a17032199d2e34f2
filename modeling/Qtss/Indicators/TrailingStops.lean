import Mathlib.Tactic.IntervalCases
import Mathlib.Tactic.NormNum
import Qtss.Indicators.Ranges
import Qtss.Indicators.Running
/-
# Stops that trail the price (`qtss-indicators/src/psar.rs`, `supertrend.rs`)

"Bull: SAR never above the prior two lows" (psar.rs:51), "tighten only, never widen back" (supertrend.rs:44). On candles of
real numbers both hold from bar to bar as long as the trend lasts: the dot of the SAR does not move against the trend and
stays on its side of the bar (`psar_trails`), and so does the band that is drawn for the SuperTrend (`supertrend_trails`).
-/

namespace Qtss.Indicators
open Floating Causal

variable {cs : List Candle} {i : ℕ} {accStart accStep accMax : ℝ} {p : PsarState Exact}

/-! ## Parabolic SAR -/

/-- The extreme point has seen the bar `i`, which is what the next step needs. -/
structure Seen (cs : List Candle) (i : ℕ) (p : PsarState Exact) (e a s : ℝ) : Prop where
  ep : p.ep = .fin e
  af : p.af = .fin a
  sar : p.sar = .fin s
  af_mem : 0 ≤ a ∧ a ≤ 1
  high_le : p.up = true → ∀ h : i < cs.length, cs[i].high ≤ e
  le_low : p.up = false → ∀ h : i < cs.length, e ≤ cs[i].low

/-- The dot is beyond the last two bars. -/
structure Trails (cs : List Candle) (i : ℕ) (p : PsarState Exact) (s : ℝ) : Prop where
  below : p.up = true → ∀ j, i - 1 ≤ j → j ≤ i → ∀ h : j < cs.length, s ≤ cs[j].low
  above : p.up = false → ∀ j, i - 1 ≤ j → j ≤ i → ∀ h : j < cs.length, cs[j].high ≤ s

/-- The acceleration is a part of the way. -/
def Accelerates (accStart accStep accMax : ℝ) : Prop := 0 ≤ accStart ∧ accStart ≤ 1 ∧ 0 ≤ accStep ∧ 0 ≤ accMax ∧ accMax ≤ 1

theorem psarStart_seen (h : Accelerates accStart accStep accMax) (hlen : 1 < cs.length) :
    ∃ e s, Seen cs 1 (psarStart (highs cs) (lows cs) (.fin accStart)) e accStart s := by
  have hzero : 0 < cs.length := by omega
  unfold psarStart
  rw [idx_highs hlen, idx_lows hlen, idx_highs hzero, idx_lows hzero]
  by_cases hup : cs[0].high < cs[1].high
  · refine ⟨cs[1].high, cs[0].low, ?_⟩
    constructor <;> simp [hup, h.1, h.2.1]
  · refine ⟨cs[1].low, cs[0].high, ?_⟩
    constructor <;> simp [hup, h.1, h.2.1]

/-- The acceleration after a bar. -/
theorem af_step (h : Accelerates accStart accStep accMax) {a : ℝ} (ha : 0 ≤ a ∧ a ≤ 1) (further : Bool) :
    ∃ a', (if further then Exact.fin (min (a + accStep) accMax) else .fin a) = .fin a' ∧ 0 ≤ a' ∧ a' ≤ 1 := by
  obtain ⟨-, -, hstep, hmax, hmax1⟩ := h
  cases further
  · exact ⟨a, rfl, ha⟩
  · exact ⟨min (a + accStep) accMax, rfl, le_min (by linarith [ha.1]) hmax, (min_le_right _ _).trans hmax1⟩

theorem ep_up (e high : ℝ) : (if lt (Exact.fin e) (.fin high) then Exact.fin high else .fin e) = .fin (max e high) := by
  by_cases h : e < high
  · simp [h, max_eq_right h.le]
  · simp [h, max_eq_left (not_lt.1 h)]

theorem ep_down (e low : ℝ) : (if lt (Exact.fin low) (.fin e) then Exact.fin low else .fin e) = .fin (min e low) := by
  by_cases h : low < e
  · simp [h, min_eq_right h.le]
  · simp [h, min_eq_left (not_lt.1 h)]

/-- Of two neighbouring bars. -/
theorem eq_or_of_between {j : ℕ} (hlo : i + 1 - 1 ≤ j) (hhi : j ≤ i + 1) : j = i ∨ j = i + 1 := by omega

section step
variable {e a s : ℝ} (h : Accelerates accStart accStep accMax) (hi : i + 1 < cs.length) (hone : 1 ≤ i) (hp : Seen cs i p e a s)
include h hi hone hp

/-- One bar of a rising trend: the dot rises, or the trend falls from the extreme point. -/
theorem psarStep_up (hup : p.up = true) :
    ∃ p' e' a' s', psarStep (highs cs) (lows cs) (.fin accStart) (.fin accStep) (.fin accMax) p (i + 1) = p' ∧
      Seen cs (i + 1) p' e' a' s' ∧ Trails cs (i + 1) p' s' ∧ (Trails cs i p s → p'.up = true → s ≤ s') := by
  have hcur : i < cs.length := by omega
  have hback : i - 1 < cs.length := by omega
  have hcandle : cs[i + 1].low ≤ cs[i + 1].high := cs[i + 1].low_le_close.trans cs[i + 1].close_le_high
  have hcandle' : cs[i].low ≤ cs[i].high := cs[i].low_le_close.trans cs[i].close_le_high
  have hhigh := hp.high_le hup hcur
  obtain ⟨a', haf, ha'⟩ := af_step h hp.af_mem (lt (Exact.fin e) (.fin cs[i + 1].high))
  set dot := min (min (s + a * (e - s)) cs[i].low) cs[i - 1].low with hdot
  have hdot_low : dot ≤ cs[i].low := (min_le_left _ _).trans (min_le_right _ _)
  unfold psarStep
  rw [hp.ep, hp.af, hp.sar, hup, show i + 1 - 1 = i from rfl, show i + 1 - 2 = i - 1 by omega, idx_highs hi, idx_lows hi,
    idx_lows hcur, idx_lows hback]
  simp only [Exact.fin_sub, Exact.fin_mul, Exact.fin_add, Exact.min_fin, if_true, ← hdot]
  by_cases hflip : cs[i + 1].low < dot
  · refine ⟨_, cs[i + 1].low, accStart, max e cs[i + 1].high, if_pos (by simpa using hflip), ?_, ?_, ?_⟩
    · exact ⟨rfl, rfl, ep_up e _, ⟨h.1, h.2.1⟩, by simp, fun _ _ => le_rfl⟩
    · refine ⟨by simp, fun _ j hlo hle hj => ?_⟩
      rcases eq_or_of_between hlo hle with rfl | rfl
      · exact hhigh.trans (le_max_left _ _)
      · exact le_max_right _ _
    · simp
  · refine ⟨_, max e cs[i + 1].high, a', dot, if_neg (by simpa using hflip), ?_, ?_, ?_⟩
    · exact ⟨ep_up e _, haf, rfl, ha', fun _ _ => le_max_right _ _, by simp⟩
    · refine ⟨fun _ j hlo hle hj => ?_, by simp⟩
      rcases eq_or_of_between hlo hle with rfl | rfl
      · exact hdot_low
      · exact not_lt.1 hflip
    · intro htrails _
      have hs := htrails.below hup i (by omega) le_rfl hcur
      have hs' := htrails.below hup (i - 1) le_rfl (by omega) hback
      have hmove : 0 ≤ a * (e - s) := mul_nonneg hp.af_mem.1 (by linarith)
      exact le_min (le_min (by linarith) hs) hs'

/-- One bar of a falling trend. -/
theorem psarStep_down (hup : p.up = false) :
    ∃ p' e' a' s', psarStep (highs cs) (lows cs) (.fin accStart) (.fin accStep) (.fin accMax) p (i + 1) = p' ∧
      Seen cs (i + 1) p' e' a' s' ∧ Trails cs (i + 1) p' s' ∧ (Trails cs i p s → p'.up = false → s' ≤ s) := by
  have hcur : i < cs.length := by omega
  have hback : i - 1 < cs.length := by omega
  have hcandle : cs[i + 1].low ≤ cs[i + 1].high := cs[i + 1].low_le_close.trans cs[i + 1].close_le_high
  have hcandle' : cs[i].low ≤ cs[i].high := cs[i].low_le_close.trans cs[i].close_le_high
  have hlow := hp.le_low hup hcur
  obtain ⟨a', haf, ha'⟩ := af_step h hp.af_mem (lt (Exact.fin cs[i + 1].low) (.fin e))
  set dot := max (max (s + a * (e - s)) cs[i].high) cs[i - 1].high with hdot
  have hdot_high : cs[i].high ≤ dot := (le_max_right _ _).trans (le_max_left _ _)
  unfold psarStep
  rw [hp.ep, hp.af, hp.sar, hup, show i + 1 - 1 = i from rfl, show i + 1 - 2 = i - 1 by omega, idx_highs hi, idx_lows hi,
    idx_highs hcur, idx_highs hback]
  simp only [Exact.fin_sub, Exact.fin_mul, Exact.fin_add, Exact.max_fin, Exact.min_fin, Bool.false_eq_true, if_false, ← hdot]
  by_cases hflip : dot < cs[i + 1].high
  · refine ⟨_, cs[i + 1].high, accStart, min e cs[i + 1].low, if_pos (by simpa using hflip), ?_, ?_, ?_⟩
    · exact ⟨rfl, rfl, ep_down e _, ⟨h.1, h.2.1⟩, fun _ _ => le_rfl, by simp⟩
    · refine ⟨fun _ j hlo hle hj => ?_, by simp⟩
      rcases eq_or_of_between hlo hle with rfl | rfl
      · exact (min_le_left _ _).trans hlow
      · exact min_le_right _ _
    · simp
  · refine ⟨_, min e cs[i + 1].low, a', dot, if_neg (by simpa using hflip), ?_, ?_, ?_⟩
    · exact ⟨ep_down e _, haf, rfl, ha', by simp, fun _ _ => min_le_right _ _⟩
    · refine ⟨by simp, fun _ j hlo hle hj => ?_⟩
      rcases eq_or_of_between hlo hle with rfl | rfl
      · exact hdot_high
      · exact not_lt.1 hflip
    · intro htrails _
      have hs := htrails.above hup i (by omega) le_rfl hcur
      have hs' := htrails.above hup (i - 1) le_rfl (by omega) hback
      have hmove : a * (e - s) ≤ 0 := mul_nonpos_of_nonneg_of_nonpos hp.af_mem.1 (by linarith)
      exact max_le (max_le (by linarith) hs) hs'

end step

/-- Where the SAR stands after the bar `i`. -/
def psarAt {F : Type} [Floating F] (highs lows : List F) (accStart accStep accMax : F) (i : ℕ) : PsarState F :=
  carry (fun p i =>
      let p := psarStep highs lows accStart accStep accMax p i
      (p, p))
    (psarStart highs lows accStart) (List.range' 2 (i - 1))

theorem psarAt_succ (highs lows : List Exact) (accStart accStep accMax : Exact) (hone : 1 ≤ i) :
    psarAt highs lows accStart accStep accMax (i + 1) =
      psarStep highs lows accStart accStep accMax (psarAt highs lows accStart accStep accMax i) (i + 1) := by
  unfold psarAt
  rw [show i + 1 - 1 = i - 1 + 1 by omega, carry_concat, show 2 + (i - 1) = i + 1 by omega]

theorem psar_getElem? (highs lows : List Exact) (accStart accStep accMax : Exact) (htwo : 2 ≤ i)
    (hi : i < min highs.length lows.length) :
    (psar highs lows accStart accStep accMax).sar[i]? = some (psarAt highs lows accStart accStep accMax i).sar ∧
      (psar highs lows accStart accStep accMax).trend[i]? =
        some (direction (psarAt highs lows accStart accStep accMax i).up) := by
  obtain ⟨k, rfl⟩ : ∃ k, i = k + 2 := ⟨i - 2, by omega⟩
  unfold psar
  simp only
  rw [if_neg (by omega)]
  simp only [List.getElem?_map, List.getElem?_cons_succ]
  rw [getElem?_scan _ _ (by omega), Option.map_some, Option.map_some, psarAt_succ _ _ _ _ _ (by omega),
    show 2 + k = k + 1 + 1 by omega]
  exact ⟨rfl, rfl⟩

theorem psar_run (h : Accelerates accStart accStep accMax) (hone : 1 ≤ i) (hi : i < cs.length) :
    ∃ e a s, Seen cs i (psarAt (highs cs) (lows cs) (.fin accStart) (.fin accStep) (.fin accMax) i) e a s ∧
      (2 ≤ i → Trails cs i (psarAt (highs cs) (lows cs) (.fin accStart) (.fin accStep) (.fin accMax) i) s) := by
  induction i with
  | zero => omega
  | succ i ih =>
    by_cases hstart : i = 0
    · subst hstart
      obtain ⟨e, s, hseen⟩ := psarStart_seen h hi
      exact ⟨e, accStart, s, hseen, fun hone => by omega⟩
    · obtain ⟨e, a, s, hseen, -⟩ := ih (by omega) (by omega)
      rw [psarAt_succ _ _ _ _ _ (by omega)]
      cases hup : (psarAt (highs cs) (lows cs) (.fin accStart) (.fin accStep) (.fin accMax) i).up with
      | true =>
        obtain ⟨p', e', a', s', hp', hseen', htrails, -⟩ := psarStep_up h hi (by omega) hseen hup
        rw [hp']
        exact ⟨e', a', s', hseen', fun _ => htrails⟩
      | false =>
        obtain ⟨p', e', a', s', hp', hseen', htrails, -⟩ := psarStep_down h hi (by omega) hseen hup
        rw [hp']
        exact ⟨e', a', s', hseen', fun _ => htrails⟩

/-- From bar to bar within a trend. -/
theorem psar_moves (h : Accelerates accStart accStep accMax) (htwo : 2 ≤ i) (hi : i + 1 < cs.length) {s s' : ℝ}
    (hs : (psarAt (highs cs) (lows cs) (.fin accStart) (.fin accStep) (.fin accMax) i).sar = .fin s)
    (hs' : (psarAt (highs cs) (lows cs) (.fin accStart) (.fin accStep) (.fin accMax) (i + 1)).sar = .fin s') {up : Bool}
    (hup : (psarAt (highs cs) (lows cs) (.fin accStart) (.fin accStep) (.fin accMax) i).up = up)
    (hup' : (psarAt (highs cs) (lows cs) (.fin accStart) (.fin accStep) (.fin accMax) (i + 1)).up = up) :
    if up then s ≤ s' else s' ≤ s := by
  obtain ⟨e, a, t, hseen, htrails⟩ := psar_run h (by omega) (show i < cs.length by omega)
  obtain rfl := Exact.fin.inj (hseen.sar.symm.trans hs)
  rw [psarAt_succ _ _ _ _ _ (by omega)] at hs' hup'
  cases up with
  | true =>
    obtain ⟨p', e', a', t', hp', hseen', -, hmoves⟩ := psarStep_up h hi (by omega) hseen hup
    rw [hp'] at hs' hup'
    obtain rfl := Exact.fin.inj (hseen'.sar.symm.trans hs')
    exact hmoves (htrails htwo) hup'
  | false =>
    obtain ⟨p', e', a', t', hp', hseen', -, hmoves⟩ := psarStep_down h hi (by omega) hseen hup
    rw [hp'] at hs' hup'
    obtain rfl := Exact.fin.inj (hseen'.sar.symm.trans hs')
    exact hmoves (htrails htwo) hup'

theorem direction_inj {a b : Bool} (h : direction a = direction b) : a = b := by
  cases a <;> cases b <;> simp_all [direction]

/-- The dots of the SAR from the third bar on. -/
theorem psar_trails (h : Accelerates accStart accStep accMax) {r : PsarResult Exact}
    (hr : r = psar (highs cs) (lows cs) (.fin accStart) (.fin accStep) (.fin accMax)) (htwo : 2 ≤ i) (hi : i < cs.length) :
    ∃ s, r.sar[i]? = some (.fin s) ∧
      (r.trend[i]? = some 1 ∧ s ≤ cs[i].low ∨ r.trend[i]? = some (-1) ∧ cs[i].high ≤ s) ∧
      ∀ s', 3 ≤ i → r.sar[i - 1]? = some (.fin s') →
        (r.trend[i - 1]? = some 1 → r.trend[i]? = some 1 → s' ≤ s) ∧
        (r.trend[i - 1]? = some (-1) → r.trend[i]? = some (-1) → s ≤ s') := by
  obtain ⟨e, a, s, hseen, htrails⟩ := psar_run h (by omega) hi
  have htrails := htrails htwo
  have hlen : ∀ {j}, j < cs.length → j < min (highs cs).length (lows cs).length := fun hj => by simpa using hj
  obtain ⟨hsar, htrend⟩ := psar_getElem? (highs cs) (lows cs) (.fin accStart) (.fin accStep) (.fin accMax) htwo (hlen hi)
  subst hr
  rw [hsar, htrend, hseen.sar]
  refine ⟨s, rfl, ?_, fun s' hthree hs' => ?_⟩
  · cases hup : (psarAt (highs cs) (lows cs) (.fin accStart) (.fin accStep) (.fin accMax) i).up with
    | true => exact .inl ⟨rfl, htrails.below hup i (by omega) le_rfl hi⟩
    | false => exact .inr ⟨rfl, htrails.above hup i (by omega) le_rfl hi⟩
  · obtain ⟨k, rfl⟩ : ∃ k, i = k + 1 := ⟨i - 1, by omega⟩
    rw [Nat.add_sub_cancel] at hs' ⊢
    obtain ⟨hsar', htrend'⟩ := psar_getElem? (highs cs) (lows cs) (.fin accStart) (.fin accStep) (.fin accMax)
      (show 2 ≤ k by omega) (hlen (show k < cs.length by omega))
    rw [hsar'] at hs'
    rw [htrend']
    have hprev := Option.some.inj hs'
    constructor
    · intro h₀ h₁
      exact psar_moves h (by omega) hi hprev hseen.sar (direction_inj (b := true) (Option.some.inj h₀))
        (direction_inj (b := true) (Option.some.inj h₁))
    · intro h₀ h₁
      exact psar_moves h (by omega) hi hprev hseen.sar (direction_inj (b := false) (Option.some.inj h₀))
        (direction_inj (b := false) (Option.some.inj h₁))

noncomputable section

/-- A candle of one price. -/
def flat (x : ℝ) (h : 0 ≤ x) : Candle := ⟨x, x, x, 0, le_rfl, le_rfl, h, le_rfl⟩

def rising : List Candle := [flat 1 (by norm_num), flat 2 (by norm_num), flat 3 (by norm_num), flat 4 (by norm_num)]

end

theorem psar_trails_rising :
    ∃ s, (psar (highs rising) (lows rising) (.fin (1 / 50)) (.fin (1 / 50)) (.fin (1 / 5))).sar[3]? = some (.fin s) ∧
      ((psar (highs rising) (lows rising) (.fin (1 / 50)) (.fin (1 / 50)) (.fin (1 / 5))).trend[3]? = some 1 ∧ s ≤ 4 ∨
        (psar (highs rising) (lows rising) (.fin (1 / 50)) (.fin (1 / 50)) (.fin (1 / 5))).trend[3]? = some (-1) ∧ 4 ≤ s) := by
  have hspeed : Accelerates (1 / 50) (1 / 50) (1 / 5) := by norm_num [Accelerates]
  have hlong : 3 < rising.length := by simp [rising]
  obtain ⟨s, hs, hside, -⟩ := psar_trails hspeed rfl (by decide) hlong
  exact ⟨s, hs, hside⟩

/-! ## SuperTrend -/

def Number (x : Exact) : Prop := x = .nan ∨ ∃ r, x = .fin r

theorem sum_fin (xs : List ℝ) : ∃ r, Floating.sum (xs.map Exact.fin) = .fin r := by
  unfold Floating.sum
  refine List.foldlRecOn (motive := fun acc => ∃ r, acc = Exact.fin r) _ _ ⟨_, rfl⟩ fun acc hacc x hx => ?_
  obtain ⟨y, -, rfl⟩ := List.mem_map.1 hx
  obtain ⟨r, rfl⟩ := hacc
  exact ⟨r + y, Exact.fin_add⟩

theorem idx_fin {xs : List ℝ} (h : i < xs.length) : idx (xs.map Exact.fin) i = .fin xs[i] := by
  rw [idx, List.getD_eq_getElem _ _ (by simpa using h), List.getElem_map]

/-- An average of numbers. -/
theorem sma_number (xs : List ℝ) (period : ℕ) : ∀ x ∈ sma (xs.map Exact.fin) period, Number x := by
  intro x hx
  unfold sma at hx
  simp only [List.length_map] at hx
  split at hx
  · exact .inl (List.eq_of_mem_replicate hx)
  · next hguard =>
    have hp : ((period : ℚ) : ℝ) ≠ 0 := by
      have : period ≠ 0 := fun hzero => hguard (.inl hzero)
      exact_mod_cast this
    obtain ⟨total, htotal⟩ := sum_fin (xs.take period)
    rw [← List.map_take, htotal] at hx
    rcases List.mem_append.1 hx with hx | hx
    · exact .inl (List.eq_of_mem_replicate hx)
    · rcases List.mem_cons.1 hx with rfl | hx
      · exact .inr ⟨_, Exact.fin_div hp⟩
      · refine forall_mem_scan (P := fun acc => ∃ r, acc = Exact.fin r) (fun acc i hi hacc => ?_) ⟨total, rfl⟩ x hx
        rw [List.mem_range'_1] at hi
        obtain ⟨r, rfl⟩ := hacc
        rw [idx_fin (by omega), idx_fin (by omega), Exact.fin_sub, Exact.fin_add]
        exact ⟨⟨_, rfl⟩, .inr ⟨_, Exact.fin_div hp⟩⟩

theorem trueRange_fin (cs : List Candle) (hi : i < cs.length) : ∃ r, trueRange (highs cs) (lows cs) (closes cs) i = .fin r := by
  unfold trueRange
  split
  · next hzero =>
    subst hzero
    rw [idx_highs hi, idx_lows hi, Exact.fin_sub]
    exact ⟨_, rfl⟩
  · rw [idx_highs hi, idx_lows hi, idx_closes (by omega)]
    simp only [Exact.fin_sub, Exact.abs_fin, Exact.max_fin]
    exact ⟨_, rfl⟩

theorem atr_number (period : ℕ) : ∀ x ∈ atr (highs cs) (lows cs) (closes cs) period, Number x := by
  have hranges : ∃ xs : List ℝ, (List.range (closes cs).length).map (trueRange (highs cs) (lows cs) (closes cs)) =
      xs.map Exact.fin := by
    rw [length_closes]
    have hall : ∀ n ≤ cs.length, ∃ xs : List ℝ,
        (List.range n).map (trueRange (highs cs) (lows cs) (closes cs)) = xs.map Exact.fin := by
      intro n hn
      induction n with
      | zero => exact ⟨[], rfl⟩
      | succ n ih =>
        obtain ⟨xs, hxs⟩ := ih (by omega)
        obtain ⟨r, hr⟩ := trueRange_fin cs (i := n) (by omega)
        exact ⟨xs ++ [r], by rw [List.range_succ, List.map_append, hxs, List.map_singleton, hr, List.map_append]; rfl⟩
    exact hall cs.length le_rfl
  obtain ⟨xs, hxs⟩ := hranges
  unfold atr
  rw [hxs]
  exact sma_number xs period

/-- A row of the warm-up, or one with both bands. -/
def Banded (row : SuperTrendRow Exact) (u l : ℝ) : Prop := row.upper = .fin u ∧ row.lower = .fin l

section step
variable {atrSeries : List Exact} {factor : ℝ} {prev : SuperTrendRow Exact}

theorem supertrendStep_warm (h : idx atrSeries i = .nan) (f : Exact) :
    supertrendStep (highs cs) (lows cs) (closes cs) atrSeries f prev i = ⟨.nan, .nan, 0⟩ := by
  simp [supertrendStep, h]

/-- A band keeps the value before it, or takes a new one. -/
theorem firm_upper {u : ℝ} (hi : 0 < i) (hprev : prev.upper = .fin u) (c v : ℝ) :
    (if ((decide (0 < i) && !isNan prev.upper) && lt prev.upper (.fin v) && le (.fin c) prev.upper) = true
      then prev.upper else .fin v) = .fin (if u < v ∧ c ≤ u then u else v) := by
  rw [hprev, apply_ite Exact.fin]
  simp [hi]

theorem firm_lower {u l : ℝ} (hi : 0 < i) (hprev : Banded prev u l) (c v : ℝ) :
    (if ((decide (0 < i) && !isNan prev.upper) && lt (.fin v) prev.lower && le prev.lower (.fin c)) = true
      then prev.lower else .fin v) = .fin (if v < l ∧ l ≤ c then l else v) := by
  rw [hprev.1, hprev.2, apply_ite Exact.fin]
  simp [hi]

theorem flip_up {t : ℤ} {c l : ℝ} {up : Exact} (ht : t = 1) (h : flipTrend t (Exact.fin c) up (.fin l) = 1) : l ≤ c := by
  by_contra hlt
  have hlt : c < l := not_le.1 hlt
  simp [flipTrend, ht, hlt] at h

theorem flip_down {t : ℤ} {c u : ℝ} {lo : Exact} (ht : t = -1) (h : flipTrend t (Exact.fin c) (.fin u) lo = -1) : c ≤ u := by
  by_contra hlt
  have hlt : u < c := not_le.1 hlt
  simp [flipTrend, ht, hlt] at h

/-- The bands of a bar beside those of the bar before, and the trend. -/
theorem supertrendStep_spec {r : ℝ} (h : idx atrSeries i = .fin r) (hi : i < cs.length)
    (hprev : prev.upper = .nan ∨ ∃ u l, Banded prev u l) :
    ∃ u l, Banded (supertrendStep (highs cs) (lows cs) (closes cs) atrSeries (.fin factor) prev i) u l ∧
      (supertrendStep (highs cs) (lows cs) (closes cs) atrSeries (.fin factor) prev i).trend =
        flipTrend prev.trend (Exact.fin cs[i].close) (.fin u) (.fin l) ∧
      ∀ u₀ l₀, Banded prev u₀ l₀ → 0 < i → ∀ hback : i - 1 < cs.length,
        (l₀ ≤ cs[i - 1].close → l₀ ≤ l) ∧ (cs[i - 1].close ≤ u₀ → u ≤ u₀) := by
  have htwo : ((2 : ℚ) : ℝ) ≠ 0 := by norm_num
  unfold supertrendStep
  rw [h, idx_highs hi, idx_lows hi, idx_closes hi, Exact.isNan_fin, if_neg Bool.false_ne_true]
  simp only [Exact.fin_add, Exact.lit_eq, Exact.fin_div htwo, Exact.fin_mul, Exact.fin_sub]
  set up := (cs[i].high + cs[i].low) / ((2 : ℚ) : ℝ) + factor * r
  set lo := (cs[i].high + cs[i].low) / ((2 : ℚ) : ℝ) - factor * r
  by_cases hfirst : i = 0
  · subst hfirst
    exact ⟨up, lo, ⟨rfl, rfl⟩, rfl, fun _ _ _ hpos => absurd hpos (Nat.lt_irrefl 0)⟩
  · rcases hprev with hnan | ⟨u₀, l₀, hband⟩
    · have hloose : ∀ b c : Bool, ((decide (0 < i) && !isNan prev.upper) && b && c) = false := by
        intro b c
        simp [hnan]
      simp only [hloose, Bool.false_eq_true, if_false]
      refine ⟨up, lo, ⟨rfl, rfl⟩, rfl, fun u l hbanded => ?_⟩
      exact absurd (hnan.symm.trans hbanded.1) (by simp)
    · have hpos : 0 < i := Nat.pos_of_ne_zero hfirst
      have hback : i - 1 < cs.length := by omega
      rw [idx_closes hback, firm_upper hpos hband.1, firm_lower hpos hband]
      refine ⟨_, _, ⟨rfl, rfl⟩, rfl, fun u l hbanded _ _ => ?_⟩
      obtain rfl := Exact.fin.inj (hband.1.symm.trans hbanded.1)
      obtain rfl := Exact.fin.inj (hband.2.symm.trans hbanded.2)
      constructor
      · intro hclose
        split
        · exact le_rfl
        · next hnot => exact not_lt.1 fun hlt => hnot ⟨hlt, hclose⟩
      · intro hclose
        split
        · exact le_rfl
        · next hnot => exact not_lt.1 fun hlt => hnot ⟨hlt, hclose⟩

end step

/-- The row of the bar before `i`. -/
def rowBefore {F : Type} [Floating F] (highs lows closes atrSeries : List F) (factor : F) (i : ℕ) : SuperTrendRow F :=
  carry (fun prev i =>
      let row := supertrendStep highs lows closes atrSeries factor prev i
      (row, row))
    ⟨nan, nan, 0⟩ (List.range' 0 i)

theorem supertrendRows_getElem? (period : ℕ) (factor : Exact) (hi : i < cs.length) :
    (supertrendRows (highs cs) (lows cs) (closes cs) period factor)[i]? =
      some (rowBefore (highs cs) (lows cs) (closes cs) (atr (highs cs) (lows cs) (closes cs) period) factor (i + 1)) := by
  unfold supertrendRows rowBefore
  rw [List.range_eq_range', getElem?_scan _ _ (by simpa using hi), carry_concat]

theorem rowBefore_succ (period : ℕ) (factor : Exact) (i : ℕ) :
    rowBefore (highs cs) (lows cs) (closes cs) (atr (highs cs) (lows cs) (closes cs) period) factor (i + 1) =
      supertrendStep (highs cs) (lows cs) (closes cs) (atr (highs cs) (lows cs) (closes cs) period) factor
        (rowBefore (highs cs) (lows cs) (closes cs) (atr (highs cs) (lows cs) (closes cs) period) factor i) i := by
  unfold rowBefore
  rw [carry_concat, Nat.zero_add]

theorem atr_idx (period : ℕ) (hi : i < cs.length) : Number (idx (atr (highs cs) (lows cs) (closes cs) period) i) := by
  have hlength : (atr (highs cs) (lows cs) (closes cs) period).length = cs.length := by
    rw [atr, (causal_sma period).length, List.length_map, List.length_range, length_closes]
  rw [idx, List.getD_eq_getElem _ _ (by rw [hlength]; exact hi)]
  exact atr_number period _ (List.getElem_mem _)

/-- Every row has no band and no trend, or both bands. -/
theorem row_cases (period : ℕ) (factor : ℝ) (hi : i ≤ cs.length) {row : ℕ → SuperTrendRow Exact}
    (hrow : row = rowBefore (highs cs) (lows cs) (closes cs) (atr (highs cs) (lows cs) (closes cs) period) (.fin factor)) :
    ((row i).upper = .nan ∧ (row i).trend = 0) ∨ ∃ u l, Banded (row i) u l := by
  subst hrow
  induction i with
  | zero => exact .inl ⟨rfl, rfl⟩
  | succ i ih =>
    rw [rowBefore_succ]
    rcases atr_idx period (show i < cs.length by omega) with hnan | ⟨r, hr⟩
    · rw [supertrendStep_warm hnan]
      exact .inl ⟨rfl, rfl⟩
    · obtain ⟨u, l, hband, -⟩ := supertrendStep_spec hr (show i < cs.length by omega) ((ih (by omega)).imp And.left id)
      exact .inr ⟨u, l, hband⟩

/-- A bar with a trend is past the warm-up. -/
theorem row_of_trend (period : ℕ) (factor : ℝ) (hi : i < cs.length) {row : ℕ → SuperTrendRow Exact}
    (hrow : row = rowBefore (highs cs) (lows cs) (closes cs) (atr (highs cs) (lows cs) (closes cs) period) (.fin factor))
    (htrend : (row (i + 1)).trend ≠ 0) :
    ∃ u l, Banded (row (i + 1)) u l ∧
      (row (i + 1)).trend = flipTrend (row i).trend (Exact.fin cs[i].close) (.fin u) (.fin l) ∧
      ∀ u₀ l₀, Banded (row i) u₀ l₀ → 0 < i → ∀ hback : i - 1 < cs.length,
        (l₀ ≤ cs[i - 1].close → l₀ ≤ l) ∧ (cs[i - 1].close ≤ u₀ → u ≤ u₀) := by
  have hcases := row_cases period factor hi.le hrow
  subst hrow
  rw [rowBefore_succ] at htrend ⊢
  rcases atr_idx period hi with hnan | ⟨r, hr⟩
  · rw [supertrendStep_warm hnan] at htrend
    exact absurd rfl htrend
  · exact supertrendStep_spec hr hi (hcases.imp And.left id)

theorem supertrend_getElem? (period : ℕ) (factor : Exact) (hi : i < cs.length) {row : ℕ → SuperTrendRow Exact}
    (hrow : row = rowBefore (highs cs) (lows cs) (closes cs) (atr (highs cs) (lows cs) (closes cs) period) factor) :
    (supertrend (highs cs) (lows cs) (closes cs) period factor).upper[i]? = some (row (i + 1)).upper ∧
      (supertrend (highs cs) (lows cs) (closes cs) period factor).lower[i]? = some (row (i + 1)).lower ∧
      (supertrend (highs cs) (lows cs) (closes cs) period factor).trend[i]? = some (row (i + 1)).trend := by
  unfold supertrend
  simp only [List.getElem?_map, supertrendRows_getElem? period factor hi, Option.map_some, hrow]
  exact ⟨trivial, trivial, trivial⟩

/-- Three bars of one trend: the band of the last is not looser, and the close has not passed it. -/
theorem supertrend_trails (period : ℕ) (factor : ℝ) (hi : i + 2 < cs.length) {r : SuperTrendResult Exact}
    (hr : r = supertrend (highs cs) (lows cs) (closes cs) period (.fin factor)) {t : ℤ}
    (htrend : ∀ j ≤ 2, r.trend[i + j]? = some t) :
    (t = 1 → ∃ l l', r.lower[i + 1]? = some (.fin l) ∧ r.lower[i + 2]? = some (.fin l') ∧ l ≤ l' ∧
      l' ≤ cs[i + 2].close) ∧
    (t = -1 → ∃ u u', r.upper[i + 1]? = some (.fin u) ∧ r.upper[i + 2]? = some (.fin u') ∧ u' ≤ u ∧
      cs[i + 2].close ≤ u') := by
  subst hr
  obtain ⟨row, hrow⟩ : ∃ row, row = rowBefore (highs cs) (lows cs) (closes cs)
      (atr (highs cs) (lows cs) (closes cs) period) (.fin factor) := ⟨_, rfl⟩
  have hget : ∀ j ≤ 2, (row (i + j + 1)).trend = t := fun j hj =>
    Option.some.inj ((supertrend_getElem? period (.fin factor) (by omega) hrow).2.2.symm.trans (htrend j hj))
  obtain ⟨hupper₁, hlower₁, -⟩ := supertrend_getElem? period (.fin factor) (show i + 1 < cs.length by omega) hrow
  obtain ⟨hupper₂, hlower₂, -⟩ := supertrend_getElem? period (.fin factor) hi hrow
  have h₀ : (row (i + 1)).trend = t := hget 0 (by omega)
  have h₁ : (row (i + 1 + 1)).trend = t := hget 1 (by omega)
  have h₂ : (row (i + 2 + 1)).trend = t := hget 2 (by omega)
  have hbetween : t ≠ 0 → ∃ u₁ l₁ u₂ l₂, Banded (row (i + 1 + 1)) u₁ l₁ ∧ Banded (row (i + 2 + 1)) u₂ l₂ ∧
      t = flipTrend t (Exact.fin cs[i + 1].close) (.fin u₁) (.fin l₁) ∧
      t = flipTrend t (Exact.fin cs[i + 2].close) (.fin u₂) (.fin l₂) ∧
      (l₁ ≤ cs[i + 1].close → l₁ ≤ l₂) ∧ (cs[i + 1].close ≤ u₁ → u₂ ≤ u₁) := by
    intro ht
    obtain ⟨u₁, l₁, hband₁, hflip₁, -⟩ := row_of_trend period factor (show i + 1 < cs.length by omega) hrow (by rwa [h₁])
    obtain ⟨u₂, l₂, hband₂, hflip₂, hnext⟩ := row_of_trend period factor hi hrow (by rwa [h₂])
    rw [h₁, h₀] at hflip₁
    rw [h₂, h₁] at hflip₂
    obtain ⟨hl, hu⟩ := hnext u₁ l₁ hband₁ (by omega) (by omega)
    exact ⟨u₁, l₁, u₂, l₂, hband₁, hband₂, hflip₁, hflip₂, hl, hu⟩
  constructor
  · rintro rfl
    obtain ⟨u₁, l₁, u₂, l₂, hband₁, hband₂, hflip₁, hflip₂, hl, -⟩ := hbetween (by decide)
    exact ⟨l₁, l₂, by rw [hlower₁, hband₁.2], by rw [hlower₂, hband₂.2], hl (flip_up rfl hflip₁.symm),
      flip_up rfl hflip₂.symm⟩
  · rintro rfl
    obtain ⟨u₁, l₁, u₂, l₂, hband₁, hband₂, hflip₁, hflip₂, -, hu⟩ := hbetween (by decide)
    exact ⟨u₁, u₂, by rw [hupper₁, hband₁.1], by rw [hupper₂, hband₂.1], hu (flip_down rfl hflip₁.symm),
      flip_down rfl hflip₂.symm⟩

theorem atr_rising : atr (highs rising) (lows rising) (closes rising) 1 = [.fin 0, .fin 1, .fin 1, .fin 1] := by
  have hone : ∀ x : ℝ, Exact.fin x / Exact.fin 1 = Exact.fin x := fun x => by rw [Exact.fin_div one_ne_zero, div_one]
  simp [atr, sma, trueRange, rising, flat, highs, lows, closes, idx, List.range_succ, List.range'_succ, scan,
    Floating.sum, hone]
  norm_num

theorem trend_rising : (supertrend (highs rising) (lows rising) (closes rising) 1 (.fin 0)).trend = [0, 1, 1, 1] := by
  have htwo : ∀ x : ℝ, Exact.fin x / Exact.fin 2 = Exact.fin (x / 2) := fun x => Exact.fin_div two_ne_zero
  unfold supertrend supertrendRows
  rw [atr_rising]
  simp [supertrendStep, flipTrend, rising, flat, highs, lows, closes, idx, List.range_succ, scan, htwo]
  norm_num [flipTrend]

theorem supertrend_trails_rising :
    ∃ l l', (supertrend (highs rising) (lows rising) (closes rising) 1 (.fin 0)).lower[2]? = some (.fin l) ∧
      (supertrend (highs rising) (lows rising) (closes rising) 1 (.fin 0)).lower[3]? = some (.fin l') ∧ l ≤ l' ∧ l' ≤ 4 := by
  have hlong : 1 + 2 < rising.length := by simp [rising]
  refine (supertrend_trails 1 0 hlong rfl (t := 1) fun j hj => ?_).1 rfl
  rw [trend_rising]
  interval_cases j <;> rfl

end Qtss.Indicators
