import Qtss.Worker.Validator
/-
# Which way a price invalidates

A pattern that is broken at a price is broken at every price that is further against the trade, for the validators that
compare the price with one level (`broken`, and the gap). Two do something else. A break out of the opening range is a
fakeout as long as the price is back inside, so that both sides of the range hold (validators.rs:284). And the zone of
the range validator is measured from the far side (validators.rs:146): a bullish zone is traversed from below, where
`check_fill` (fvg.rs:162) has it filled from above (`range_inverted`).
-/

namespace Qtss.Worker.Validator
open Engine

/-- `q` is further against the trade than `p`. -/
def Against (direction : ℤ) (p q : ℚ) : Prop := if direction ≥ 0 then q < p else p < q

instance (direction : ℤ) (p q : ℚ) : Decidable (Against direction p q) :=
  inferInstanceAs (Decidable (if direction ≥ 0 then q < p else p < q))

def Invalidates (cfg : ValidatorConfig) (family : String) (row : Detection) (price : ℚ) : Prop :=
  (validate cfg family row price).isSome

instance (cfg : ValidatorConfig) (family : String) (row : Detection) : DecidablePred (Invalidates cfg family row) :=
  fun _ => inferInstanceAs (Decidable (_ = true))

/-- What is broken at a price is broken further against the trade. -/
def Monotone (cfg : ValidatorConfig) (family : String) (row : Detection) : Prop :=
  ∀ p q, 0 < p → 0 < q → Against row.direction p q → Invalidates cfg family row p → Invalidates cfg family row q

/-- The thresholds are fractions. -/
structure ValidatorConfig.Fractions (cfg : ValidatorConfig) : Prop where
  harmonic : 0 ≤ cfg.harmonicBreakPct ∧ cfg.harmonicBreakPct < 1
  range : 0 < cfg.rangeFullFillPct ∧ cfg.rangeFullFillPct ≤ 1
  gap : 0 ≤ cfg.gapClosePct ∧ cfg.gapClosePct < 1
  motive : 0 ≤ cfg.motiveWave1BufferPct ∧ cfg.motiveWave1BufferPct < 1
  smc : 0 ≤ cfg.smcBreakBufferPct ∧ cfg.smcBreakBufferPct < 1
  classical : 0 ≤ cfg.classicalBreakPct ∧ cfg.classicalBreakPct < 1

variable {cfg : ValidatorConfig} {row : Detection} {direction : ℤ} {p q level tol c : ℚ}

theorem isSome_ite {α : Type*} {b : Prop} [Decidable b] {a : α} : (if b then some a else none).isSome ↔ b := by
  by_cases h : b <;> simp [h]

/-! ## One level -/

theorem broken_of_against (h : Against direction p q) (hb : broken direction p level tol) :
    broken direction q level tol := by
  unfold broken Against at *
  split at h <;> simp_all only [if_true, if_false, decide_eq_true_eq]
  · exact h.trans hb
  · exact hb.trans h

/-- The tolerance is a fraction of the price: the price gains on it. -/
theorem broken_classical (hc : 0 ≤ c ∧ c < 1) (hp : 0 < p) (hq : 0 < q) (h : Against direction p q)
    (hb : broken direction p level (|p| * c)) : broken direction q level (|q| * c) := by
  rw [abs_of_pos hp] at hb
  rw [abs_of_pos hq]
  unfold broken Against at *
  split at h <;> simp_all only [if_true, if_false, decide_eq_true_eq]
  · have := mul_le_mul_of_nonneg_right h.le hc.1
    linarith
  · have := mul_lt_mul_of_pos_right h (sub_pos.2 hc.2)
    linarith

/-- The gap is closed up to its margin. -/
theorem closed_of_against {margin : ℚ} (h : Against direction p q)
    (hp : (if direction ≥ 0 then decide (p ≤ level + margin) else decide (p ≥ level - margin)) = true) :
    (if direction ≥ 0 then decide (q ≤ level + margin) else decide (q ≥ level - margin)) = true := by
  unfold Against at h
  split at h <;> simp_all only [if_true, if_false, decide_eq_true_eq]
  · exact h.le.trans hp
  · exact hp.trans h.le

/-! ## The families -/

/-- What is read of the row does not depend on the price. -/
theorem isSome_bind_mono {α β : Type*} {o : Option α} {f g : α → Option β}
    (h : ∀ a, (f a).isSome → (g a).isSome) (hs : (o.bind f).isSome) : (o.bind g).isSome := by
  cases o with
  | none => cases hs
  | some a => exact h a hs

theorem harmonic_mono (h : Against row.direction p q) (hp : (HarmonicValidator.validate cfg row p).isSome) :
    (HarmonicValidator.validate cfg row q).isSome := by
  refine isSome_bind_mono (fun d => isSome_bind_mono fun x => isSome_bind_mono fun a => ?_) hp
  rw [isSome_ite, isSome_ite]
  exact broken_of_against h

theorem classical_mono (hcfg : cfg.Fractions) (hp0 : 0 < p) (hq0 : 0 < q) (h : Against row.direction p q)
    (hp : (ClassicalValidator.validate cfg row p).isSome) : (ClassicalValidator.validate cfg row q).isSome := by
  refine isSome_bind_mono (fun inv => ?_) hp
  rw [isSome_ite, isSome_ite]
  exact broken_classical hcfg.classical hp0 hq0 h

theorem gap_mono (h : Against row.direction p q) (hp : (GapValidator.validate cfg row p).isSome) :
    (GapValidator.validate cfg row q).isSome := by
  refine isSome_bind_mono (fun inv => ?_) hp
  simp only [isSome_ite, Bool.or_eq_true]
  rintro (hclosed | hbroken)
  · have hnext : _ → (if row.direction ≥ 0 then decide (q ≤ inv + 0) else decide (q ≥ inv - 0)) = true :=
      closed_of_against h
    rw [add_zero, sub_zero] at hnext
    exact .inl (hnext hclosed)
  · exact .inr (closed_of_against h hbroken)

theorem motive_mono (h : Against row.direction p q) (hp : (MotiveValidator.validate cfg row p).isSome) :
    (MotiveValidator.validate cfg row q).isSome := by
  refine isSome_bind_mono (fun anchors => isSome_bind_mono fun wave1 => ?_) hp
  rw [isSome_ite, isSome_ite]
  exact broken_of_against h

theorem smc_mono (h : Against row.direction p q) (hp : (SmcValidator.validate cfg row p).isSome) :
    (SmcValidator.validate cfg row q).isSome := by
  refine isSome_bind_mono (fun inv => ?_) hp
  rw [isSome_ite, isSome_ite]
  exact broken_of_against h

theorem orb_isSome_iff : (OrbValidator.validate row p).isSome ↔
    ∃ orHigh ∈ rawF64 row.rawMeta "or_high", ∃ orLow ∈ rawF64 row.rawMeta "or_low", orLow < p ∧ p < orHigh := by
  unfold OrbValidator.validate
  cases rawF64 row.rawMeta "or_high" <;> cases rawF64 row.rawMeta "or_low" <;> simp

/-- The range validator goes with the trade: a bullish zone that is traversed at a price is traversed at every price
above it. -/
theorem range_inverted (h : Against row.direction q p) (hp : (RangeValidator.validate cfg row p).isSome) :
    (RangeValidator.validate cfg row q).isSome := by
  unfold RangeValidator.validate at *
  split at hp
  next first second rest _ =>
    simp only [isSome_ite] at hp ⊢
    have hheight : 0 < max (max ((priceOf first).getD 0) ((priceOf second).getD 0)
        - min ((priceOf first).getD 0) ((priceOf second).getD 0)) (1 / 10 ^ 9 : ℚ) := lt_max_of_lt_right (by norm_num)
    refine hp.trans ?_
    unfold Against at h
    split at h <;> simp_all only [if_true, if_false]
    · exact (div_le_div_iff_of_pos_right hheight).2 (by linarith)
    · exact (div_le_div_iff_of_pos_right hheight).2 (by linarith)
  next => cases hp

/-- **Against the trade**: for every family but the two, what is broken at a price is broken further against the
trade, and the opening range is re-entered at the prices inside it, on either side. -/
theorem invalidates_against (cfg : ValidatorConfig) (hcfg : cfg.Fractions) (row : Detection) :
    (∀ family, family ≠ "range" → family ≠ "orb" → Monotone cfg family row) ∧
      ∀ p, Invalidates cfg "orb" row p ↔
        ∃ orHigh ∈ rawF64 row.rawMeta "or_high", ∃ orLow ∈ rawF64 row.rawMeta "or_low", orLow < p ∧ p < orHigh := by
  refine ⟨?_, fun p => orb_isSome_iff⟩
  intro family hrange horb p q hp hq h hbroken
  unfold Invalidates validate at *
  split at hbroken
  · exact harmonic_mono h hbroken
  · exact classical_mono hcfg hp hq h hbroken
  · exact absurd rfl hrange
  · exact gap_mono h hbroken
  · exact motive_mono h hbroken
  · exact smc_mono h hbroken
  · exact absurd rfl horb
  · cases hbroken

/-- `ValidatorConfig::default()`. -/
def defaultValidatorConfig : ValidatorConfig := ⟨3 / 100, 1, 95 / 100, 5 / 1000, 3 / 1000, 2 / 1000⟩

theorem defaultValidatorConfig_fractions : defaultValidatorConfig.Fractions := by
  constructor <;> decide +kernel

/-- A bullish row. -/
def bullishRow (anchors rawMeta : Json) : Detection := ⟨1, 0, 0, anchors, false, rawMeta⟩

/-- A stop at 100 is broken at 99, and so at 50. -/
theorem invalidates_against_classical :
    Invalidates defaultValidatorConfig "classical" (bullishRow (.arr []) (.obj [("invalidation", .float 100)])) 50 :=
  (invalidates_against defaultValidatorConfig defaultValidatorConfig_fractions _).1 "classical" (by decide) (by decide)
    99 50 (by norm_num) (by norm_num) (by decide +kernel) (by decide +kernel)

/-- Bullish rows: a break over 110 is a fakeout at 105 and not at 95, and a zone from 100 to 110 is traversed at 115
and not at 95. -/
theorem not_against :
    ¬ Monotone defaultValidatorConfig "orb"
        (bullishRow (.arr []) (.obj [("or_high", .float 110), ("or_low", .float 100)])) ∧
      ¬ Monotone defaultValidatorConfig "range"
        (bullishRow (.arr [.obj [("price", .float 110)], .obj [("price", .float 100)]]) (.obj [])) := by
  constructor
  · intro h
    have hfar := h 105 95 (by norm_num) (by norm_num) (by decide +kernel) (by decide +kernel)
    exact absurd hfar (by decide +kernel)
  · intro h
    have hfar := h 115 95 (by norm_num) (by norm_num) (by decide +kernel) (by decide +kernel)
    exact absurd hfar (by decide +kernel)

end Qtss.Worker.Validator
