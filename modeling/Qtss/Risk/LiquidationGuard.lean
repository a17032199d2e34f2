import Mathlib.Tactic.Linarith
import Mathlib.Tactic.FieldSimp
import Qtss.Risk.TickDispatcher
/-
# The liquidation guard over the marks (`qtss-risk/src/liquidation_guard.rs`)

"The side determines which direction 'closer to liquidation' means, but the magnitude alone drives the
severity ladder": `assessWithMargin` never reads the side. As long as the mark stays on the near side of the
liquidation price that is as good as a signed distance. A mark that has gone through it moves *away* again, and
beyond the panic distance the verdict falls back through critical and warn to safe.

| here | there |
| --- | --- |
| `distance`, `severityOf` | the fraction and the ladder of `assess_with_margin` (liquidation_guard.rs:121-134) |
| `atMark`            | the position as `update_mark` leaves it |
| `Liquidated`        | at or through the liquidation price, by side |
| `MonotoneTo`, `guard_monotone_iff` | what the guard owes two marks, and when they get it |
-/

namespace Qtss.Risk

variable {side : PositionSide} {cfg : LiquidationGuardConfig} {margin : MarginContext}
  {state : LivePositionState} {liq mark mark' d d' : ℚ}

/-! ## The ladder -/

/-- `Safe < Warn < Critical < Breach`. -/
def LiquidationSeverity.rank : LiquidationSeverity → ℕ
  | .safe => 0
  | .warn => 1
  | .critical => 2
  | .breach => 3

def severityOf (cfg : LiquidationGuardConfig) (d : ℚ) : LiquidationSeverity :=
  if d ≤ cfg.panicCloseDistancePct then .breach
  else if d ≤ cfg.criticalDistancePct then .critical
  else if d ≤ cfg.warnDistancePct then .warn
  else .safe

def distance (liq mark : ℚ) : ℚ := (if liq > mark then liq - mark else mark - liq) / mark

/-- The position with another mark. -/
def atMark (state : LivePositionState) (mark : ℚ) : LivePositionState :=
  { state with lastMark := some mark }

/-- The verdict at a mark: severity and action. -/
def verdict (state : LivePositionState) (cfg : LiquidationGuardConfig) (margin : MarginContext)
    (mark : ℚ) : Option (LiquidationSeverity × LiquidationAction) :=
  (assessWithMargin (atMark state mark) cfg margin).map fun a => (a.severity, a.action)

/-- A positive mark gets the verdict of its distance, whatever the side. -/
theorem verdict_eq (hseg : state.segment.canLiquidate = true) (hliq : state.liquidationPrice = some liq) :
    verdict state cfg margin mark =
      if mark ≤ 0 ∨ liq ≤ 0 then none
      else some (severityOf cfg (distance liq mark),
        pickAction (severityOf cfg (distance liq mark)) margin cfg) := by
  simp only [verdict, assessWithMargin, atMark, hseg, hliq, severityOf, distance, Bool.not_true,
    Bool.false_eq_true, if_false, Option.bind_eq_bind, Option.bind_some]
  split <;> rfl

theorem severityOf_eq_breach : severityOf cfg d = .breach ↔ d ≤ cfg.panicCloseDistancePct := by
  unfold severityOf
  by_cases hpanic : d ≤ cfg.panicCloseDistancePct
  · simp [hpanic]
  · simp only [hpanic, if_false, iff_false]
    split <;> [skip; split] <;> simp

/-- The ladder is monotone, in whatever order its thresholds are. -/
theorem severityOf_antitone (h : d ≤ d') : (severityOf cfg d').rank ≤ (severityOf cfg d).rank := by
  unfold severityOf
  by_cases h1 : d ≤ cfg.panicCloseDistancePct
  · simp only [h1, if_true]
    split <;> [skip; split <;> [skip; split]] <;> simp [LiquidationSeverity.rank]
  · have h1' : ¬ d' ≤ cfg.panicCloseDistancePct := fun hle => h1 (h.trans hle)
    by_cases h2 : d ≤ cfg.criticalDistancePct
    · simp only [h1, h1', h2, if_true, if_false]
      split <;> [skip; split] <;> simp [LiquidationSeverity.rank]
    · have h2' : ¬ d' ≤ cfg.criticalDistancePct := fun hle => h2 (h.trans hle)
      by_cases h3 : d ≤ cfg.warnDistancePct
      · simp only [h1, h1', h2, h2', h3, if_true, if_false]
        split <;> simp [LiquidationSeverity.rank]
      · have h3' : ¬ d' ≤ cfg.warnDistancePct := fun hle => h3 (h.trans hle)
        simp [h1, h1', h2, h2', h3, h3']

/-! ## The distance on either side of the liquidation price -/

/-- At or through the liquidation price. -/
def Liquidated (side : PositionSide) (liq mark : ℚ) : Prop :=
  match side with
  | .buy => mark ≤ liq
  | .sell => liq ≤ mark

/-- `mark` is at least as far towards liquidation as `mark'`. -/
def Nearer (side : PositionSide) (mark mark' : ℚ) : Prop :=
  match side with
  | .buy => mark ≤ mark'
  | .sell => mark' ≤ mark

instance : Decidable (Liquidated side liq mark) := by unfold Liquidated; cases side <;> infer_instance

instance : Decidable (Nearer side mark mark') := by unfold Nearer; cases side <;> infer_instance

theorem distance_of_le (h : liq ≤ mark) : distance liq mark = (mark - liq) / mark := by
  rw [distance, if_neg (not_lt.2 h)]

theorem distance_of_ge (h : mark ≤ liq) : distance liq mark = (liq - mark) / mark := by
  unfold distance
  split
  · rfl
  · rename_i hnot
    rw [le_antisymm h (not_lt.1 hnot)]

theorem distance_eq_abs (liq mark : ℚ) : distance liq mark = |liq - mark| / mark := by
  unfold distance
  split
  · next h => rw [abs_of_pos (sub_pos.2 h)]
  · next h => rw [abs_sub_comm, abs_of_nonneg (sub_nonneg.2 (not_lt.1 h))]

theorem distance_le_iff (hmark : 0 < mark) : distance liq mark ≤ d ↔ |liq - mark| ≤ d * mark := by
  rw [distance_eq_abs, div_le_iff₀ hmark]

/-- Short of the liquidation price, nearer means a smaller distance. -/
theorem distance_mono (hliq : 0 < liq) (hmark : 0 < mark) (hmark' : 0 < mark')
    (hshort : ¬ Liquidated side liq mark) (hnear : Nearer side mark mark') :
    distance liq mark ≤ distance liq mark' := by
  cases side with
  | buy =>
    have hlt : liq < mark := not_le.1 hshort
    have hle : mark ≤ mark' := hnear
    rw [distance_of_le hlt.le, distance_of_le (hlt.le.trans hle), div_le_div_iff₀ hmark hmark']
    nlinarith [mul_le_mul_of_nonneg_left hle hliq.le]
  | sell =>
    have hlt : mark < liq := not_le.1 hshort
    have hle : mark' ≤ mark := hnear
    rw [distance_of_ge hlt.le, distance_of_ge (hle.trans hlt.le), div_le_div_iff₀ hmark hmark']
    nlinarith [mul_le_mul_of_nonneg_left hle hliq.le]

/-! ## Two marks -/

/-- A positive mark at or through the liquidation price is panic-closed. -/
def PanicsPast (state : LivePositionState) (cfg : LiquidationGuardConfig) (margin : MarginContext)
    (liq mark : ℚ) : Prop :=
  0 < mark → Liquidated state.side liq mark →
    verdict state cfg margin mark = some (.breach, .panicClose)

/-- The nearer of two positive marks gets the severer verdict, and either is panic-closed past the
liquidation price. -/
structure GuardMonotone (state : LivePositionState) (cfg : LiquidationGuardConfig)
    (margin : MarginContext) (liq mark mark' : ℚ) : Prop where
  monotone : ∀ v ∈ verdict state cfg margin mark, ∀ v' ∈ verdict state cfg margin mark',
    (Nearer state.side mark mark' → v'.1.rank ≤ v.1.rank)
      ∧ (Nearer state.side mark' mark → v.1.rank ≤ v'.1.rank)
  panics : PanicsPast state cfg margin liq mark
  panics' : PanicsPast state cfg margin liq mark'

/-- A positive mark past a positive liquidation price is within the panic distance of it. -/
def WithinPanic (side : PositionSide) (cfg : LiquidationGuardConfig) (liq mark : ℚ) : Prop :=
  0 < mark → Liquidated side liq mark → 0 < liq ∧ |liq - mark| ≤ cfg.panicCloseDistancePct * mark

theorem panicsPast_iff (hseg : state.segment.canLiquidate = true)
    (hliq : state.liquidationPrice = some liq) :
    PanicsPast state cfg margin liq mark ↔ WithinPanic state.side cfg liq mark := by
  refine forall_congr' fun hmark => forall_congr' fun _ => ?_
  rw [verdict_eq hseg hliq, ← distance_le_iff hmark, ← severityOf_eq_breach]
  by_cases hpos : 0 < liq
  · have hguard : ¬ (mark ≤ 0 ∨ liq ≤ 0) := by
      rw [not_or, not_le, not_le]; exact ⟨hmark, hpos⟩
    rw [if_neg hguard, Option.some_inj, Prod.mk.injEq]
    constructor
    · rintro ⟨hsev, -⟩; exact ⟨hpos, hsev⟩
    · rintro ⟨-, hsev⟩; rw [hsev]; exact ⟨rfl, rfl⟩
  · simp [hpos, not_lt.1 hpos]

/-- The nearer mark is past the liquidation price and panic-closed, or both are short of it. -/
theorem rank_le_of_nearer (hpos : 0 < liq) (hmark : 0 < mark) (hmark' : 0 < mark')
    (hpanic : WithinPanic side cfg liq mark) (hnear : Nearer side mark mark') :
    (severityOf cfg (distance liq mark')).rank ≤ (severityOf cfg (distance liq mark)).rank := by
  by_cases hpast : Liquidated side liq mark
  · have hd := (distance_le_iff hmark).2 (hpanic hmark hpast).2
    rw [severityOf_eq_breach.2 hd]
    cases severityOf cfg (distance liq mark') <;> simp [LiquidationSeverity.rank]
  · exact severityOf_antitone (distance_mono hpos hmark hmark' hpast hnear)

/-- **The guard over the marks**: a mark gets the verdict of its distance alone. Two marks get verdicts in the order of
their nearness, and a panic-close past the liquidation price, exactly when neither mark is further through it than the panic
distance. -/
theorem guard_monotone_iff (hseg : state.segment.canLiquidate = true)
    (hliq : state.liquidationPrice = some liq) :
    (∀ m, (verdict state cfg margin m).map Prod.fst =
      if m ≤ 0 ∨ liq ≤ 0 then none else some (severityOf cfg (|liq - m| / m))) ∧
    (GuardMonotone state cfg margin liq mark mark' ↔
      WithinPanic state.side cfg liq mark ∧ WithinPanic state.side cfg liq mark') := by
  refine ⟨fun m => ?_, ?_⟩
  · rw [verdict_eq hseg hliq, distance_eq_abs]
    split <;> rfl
  constructor
  · rintro ⟨-, hp, hp'⟩
    exact ⟨(panicsPast_iff hseg hliq).1 hp, (panicsPast_iff hseg hliq).1 hp'⟩
  · rintro ⟨hp, hp'⟩
    refine ⟨?_, (panicsPast_iff hseg hliq).2 hp, (panicsPast_iff hseg hliq).2 hp'⟩
    intro v hv v' hv'
    rw [verdict_eq hseg hliq, Option.mem_def, Option.ite_none_left_eq_some] at hv hv'
    obtain ⟨hguard, hv⟩ := hv
    obtain ⟨hguard', hv'⟩ := hv'
    rw [not_or, not_le, not_le] at hguard hguard'
    obtain rfl := Option.some.inj hv
    obtain rfl := Option.some.inj hv'
    exact ⟨rank_le_of_nearer hguard.2 hguard.1 hguard'.1 hp,
      rank_le_of_nearer hguard.2 hguard'.1 hguard.1 hp'⟩

/-- A long with its liquidation price at 100, short of the first mark and through the second. -/
def gapped : LivePositionState :=
  ⟨1, none, .live, "binance", .futures, "BTCUSDT", .buy, 10, 110, 1, 1, none, [], some 100, none, none,
    none, none, 0⟩

theorem guard_monotone_gapped :
    GuardMonotone gapped .default ⟨none⟩ 100 102 99 := by
  have hsegment : gapped.segment.canLiquidate = true := rfl
  refine (guard_monotone_iff hsegment rfl).2.2 ?_
  simp only [WithinPanic, gapped, Liquidated, LiquidationGuardConfig.default]
  norm_num

/-- At 90 the long is liquidated and the verdict is safe; at 105 it was a warning. -/
theorem gap_is_safe :
    verdict gapped .default ⟨none⟩ 90 = some (.safe, .none)
      ∧ verdict gapped .default ⟨none⟩ 105 = some (.warn, .alert)
      ∧ ¬ GuardMonotone gapped .default ⟨none⟩ 100 90 105 := by
  have h90 : verdict gapped .default ⟨none⟩ 90 = some (.safe, .none) := by decide +kernel
  have h105 : verdict gapped .default ⟨none⟩ 105 = some (.warn, .alert) := by decide +kernel
  refine ⟨h90, h105, fun h => ?_⟩
  have := (h.monotone _ h90 _ h105).1 (by simp [Nearer, gapped]; norm_num)
  simp [LiquidationSeverity.rank] at this

end Qtss.Risk
