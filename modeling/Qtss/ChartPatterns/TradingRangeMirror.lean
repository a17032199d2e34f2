import Mathlib.Algebra.Order.BigOperators.Group.List
import Mathlib.Algebra.Order.Group.MinMax
import Mathlib.Tactic.Linarith
import Qtss.ChartPatterns.TradingRange
/-
# The trading range upside down

Every rule for a long in `trading_range.rs` has a twin for a short. Prices are turned over at `C` (`OhlcBar.reflect`), the
two touch minimums change places, and the result is the old one with its sides exchanged (`analyze_mirror_iff`), but for
the RSI: `rs` is 100 where the average loss is at most `1e-12`, whatever the average gain, and nothing like it is done for
gains. `RsiMirrors` says where that does not show.
-/

namespace Qtss.ChartPatterns.TradingRange

/-! ## Turning over -/

def OhlcBar.reflect (C : ℚ) (b : OhlcBar) : OhlcBar :=
  { b with high := C - b.low, low := C - b.high, close := C - b.close }

/-- The minimums of the touches belong to the sides. -/
def TradingRangeParams.swapTouches (params : TradingRangeParams) : TradingRangeParams :=
  { params with minSupportTouches := params.minResistanceTouches, minResistanceTouches := params.minSupportTouches }

def RangeZone.flip : RangeZone → RangeZone
  | .upper => .lower
  | .lower => .upper
  | zone => zone

def SetupSide.flip : SetupSide → SetupSide
  | .long => .short
  | .short => .long
  | .notr => .notr

def TradingRangeResult.mirror (C : ℚ) (r : TradingRangeResult) : TradingRangeResult :=
  { r with
    rangeHigh := r.rangeLow.map (C - ·)
    rangeLow := r.rangeHigh.map (C - ·)
    mid := r.mid.map (C - ·)
    longSweepSignal := r.shortSweepSignal
    shortSweepSignal := r.longSweepSignal
    longSweepLatent := r.shortSweepLatent
    shortSweepLatent := r.longSweepLatent
    supportTouches := r.resistanceTouches
    resistanceTouches := r.supportTouches
    wickRejectionLong := r.wickRejectionShort
    wickRejectionShort := r.wickRejectionLong
    fakeBreakoutLong := r.fakeBreakoutShort
    fakeBreakoutShort := r.fakeBreakoutLong
    setupScoreLong := r.setupScoreShort
    setupScoreShort := r.setupScoreLong
    setupSide := r.setupSide.flip
    scoreTouchLong := r.scoreTouchShort
    scoreTouchShort := r.scoreTouchLong
    scoreRejectionLong := r.scoreRejectionShort
    scoreRejectionShort := r.scoreRejectionLong
    scoreOscillatorLong := r.scoreOscillatorShort
    scoreOscillatorShort := r.scoreOscillatorLong
    scoreVolumeLong := r.scoreVolumeShort
    scoreVolumeShort := r.scoreVolumeLong
    scoreBreakoutLong := r.scoreBreakoutShort
    scoreBreakoutShort := r.scoreBreakoutLong
    rangeZone := r.rangeZone.flip }

def Band.reflect (C : ℚ) (band : Band) : Band := { band with high := C - band.low, low := C - band.high }

def Measures.reflect (C : ℚ) (m : Measures) : Measures :=
  { m with
    band := m.band.reflect C
    last := m.last.reflect C
    supportTouches := m.resistanceTouches
    resistanceTouches := m.supportTouches }

/-! ## Series -/

section series
variable {bars : List OhlcBar} {C : ℚ}

theorem trueRange_reflect (h l prevClose C : ℚ) : trueRange (C - l) (C - h) (C - prevClose) = trueRange h l prevClose := by
  simp only [trueRange, sub_sub_sub_cancel_left]
  rw [abs_sub_comm prevClose l, abs_sub_comm prevClose h, max_right_comm]

theorem trueRanges_reflect (bars : List OhlcBar) (C : ℚ) : trueRanges (bars.map (OhlcBar.reflect C)) = trueRanges bars := by
  rw [trueRanges, ← List.map_tail, List.zipWith_map]
  exact congrArg (fun f => List.zipWith f bars bars.tail) (by funext prev b; exact trueRange_reflect _ _ _ _)

theorem wilderAtr_reflect (bars : List OhlcBar) (C : ℚ) (period : ℕ) :
    wilderAtr (bars.map (OhlcBar.reflect C)) period = wilderAtr bars period := by
  simp only [wilderAtr, trueRanges_reflect, List.length_map]

theorem gain_neg (d : ℚ) : gain (-d) = loss d := by
  unfold gain loss
  rcases lt_trichotomy d 0 with hneg | rfl | hpos
  · rw [if_pos (by linarith), if_neg (by linarith)]
  · simp
  · rw [if_neg (by linarith), if_pos (by linarith)]

theorem loss_neg (d : ℚ) : loss (-d) = gain d := by
  rw [← gain_neg, neg_neg]

theorem smooth_neg (p : ℚ) (avg : ℚ × ℚ) (d : ℚ) : smooth p avg.swap (-d) = (smooth p avg d).swap := by
  simp only [smooth, gain_neg, loss_neg, Prod.fst_swap, Prod.snd_swap, Prod.swap_prod_mk]

theorem changes_reflect (closes : List ℚ) (C : ℚ) : changes (closes.map (C - ·)) = (changes closes).map (-·) := by
  rw [changes, changes, ← List.map_tail, List.zipWith_map, List.map_zipWith]
  exact congrArg (fun f => List.zipWith f closes closes.tail) (by funext prev cur; ring)

theorem scanl_smooth_neg (p : ℚ) (avg : ℚ × ℚ) (ds : List ℚ) :
    (ds.map (-·)).scanl (smooth p) avg.swap = (ds.scanl (smooth p) avg).map Prod.swap := by
  induction ds generalizing avg with
  | nil => rfl
  | cons d ds ih => rw [List.map_cons, List.scanl_cons, List.scanl_cons, smooth_neg, ih, List.map_cons]

/-- Gains are losses upside down. -/
theorem wilderAverages_reflect (closes : List ℚ) (C : ℚ) (period : ℕ) :
    wilderAverages (closes.map (C - ·)) period = (wilderAverages closes period).map (Option.map Prod.swap) := by
  have hgain : gain ∘ (fun d : ℚ => -d) = loss := funext gain_neg
  have hloss : loss ∘ (fun d : ℚ => -d) = gain := funext loss_neg
  unfold wilderAverages
  rw [List.length_map]
  split
  · simp
  · dsimp only
    rw [changes_reflect, ← List.map_take, ← List.map_drop, List.map_map, List.map_map, hgain, hloss]
    have hscan := scanl_smooth_neg period ((((changes closes).take period).map gain).sum / period,
      (((changes closes).take period).map loss).sum / period) ((changes closes).drop period)
    rw [Prod.swap_prod_mk] at hscan
    rw [hscan, List.map_append, List.map_replicate, List.map_map, List.map_map]
    rfl

end series

/-! ## Pivots, band and measures -/

section measures
variable {bars : List OhlcBar} {params : TradingRangeParams} {band : Band} {last : OhlcBar} {C : ℚ}

theorem isPivot_map {price price' : OhlcBar → ℚ} {beyond beyond' : ℚ → ℚ → Bool} {f : OhlcBar → OhlcBar}
    (h : ∀ b c, beyond' (price' (f b)) (price' (f c)) = beyond (price b) (price c)) (i w : ℕ) :
    isPivot price' beyond' (bars.map f) i w = isPivot price beyond bars i w := by
  have hj (j : ℕ) : (((bars.map f)[j]?).any fun b => (((bars.map f)[i]?).map price').any fun p => beyond' (price' b) p) =
      ((bars[j]?).any fun b => ((bars[i]?).map price).any fun p => beyond (price b) p) := by
    rw [List.getElem?_map, List.getElem?_map]
    cases bars[i]? <;> cases bars[j]? <;> simp [h]
  simp only [isPivot, List.length_map, hj]

theorem isPivotLow_reflect (i w : ℕ) : isPivotLow (bars.map (OhlcBar.reflect C)) i w = isPivotHigh bars i w :=
  isPivot_map (fun b c => by simp [OhlcBar.reflect]) i w

theorem isPivotHigh_reflect (i w : ℕ) : isPivotHigh (bars.map (OhlcBar.reflect C)) i w = isPivotLow bars i w :=
  isPivot_map (fun b c => by simp [OhlcBar.reflect]) i w

theorem bandOf_reflect (first : OhlcBar) (rest : List OhlcBar) :
    bandOf (first.reflect C) (rest.map (OhlcBar.reflect C)) = (bandOf first rest).reflect C := by
  have hstep (l : List OhlcBar) (w : Band) :
      (l.map (OhlcBar.reflect C)).foldl (fun w b => ⟨max w.high b.high, min w.low b.low, min w.barFirst b.barIndex,
        max w.barLast b.barIndex⟩) (w.reflect C) =
      (l.foldl (fun w b => (⟨max w.high b.high, min w.low b.low, min w.barFirst b.barIndex,
        max w.barLast b.barIndex⟩ : Band)) w).reflect C := by
    induction l generalizing w with
    | nil => rfl
    | cons b l ih =>
      rw [List.map_cons, List.foldl_cons, List.foldl_cons, ← ih]
      congr 1
      simp only [Band.reflect, OhlcBar.reflect, max_sub_sub_left, min_sub_sub_left]
  exact hstep rest ⟨first.high, first.low, first.barIndex, first.barIndex⟩

@[simp]
theorem width_reflect : (band.reflect C).width = band.width := by
  rw [Band.width, Band.width, Band.reflect, sub_sub_sub_cancel_left]

@[simp]
theorem tolPx_swapTouches (atrLast : Option ℚ) (width : ℚ) :
    tolPx atrLast params.swapTouches width = tolPx atrLast params width := rfl

theorem abs_reflect (x y : ℚ) : |C - x - (C - y)| = |x - y| := by rw [sub_sub_sub_cancel_left, abs_sub_comm]

/-- The touches of the band from the other side. -/
theorem touches_reflect (window : List ℕ) (pivots pivots' : ℕ → Bool) (price price' : OhlcBar → ℚ) (y tol : ℚ)
    (hpivots : ∀ i, pivots' i = pivots i) (hprice : ∀ b : OhlcBar, price' (b.reflect C) = C - price b) :
    ((window.filter pivots').filterMap fun i => ((bars.map (OhlcBar.reflect C))[i]?).map price').countP
        (fun x => |x - (C - y)| ≤ tol) =
      ((window.filter pivots).filterMap fun i => (bars[i]?).map price).countP fun x => |x - y| ≤ tol := by
  have hlist : ((window.filter pivots').filterMap fun i => ((bars.map (OhlcBar.reflect C))[i]?).map price') =
      ((window.filter pivots).filterMap fun i => (bars[i]?).map price).map (C - ·) := by
    rw [List.map_filterMap, funext hpivots]
    refine List.filterMap_congr fun i _ => ?_
    rw [List.getElem?_map]
    cases bars[i]? <;> simp [hprice]
  rw [hlist, List.countP_map]
  exact List.countP_congr fun x _ => by simp only [Function.comp, abs_reflect]

/-- A close beyond the band on one side is one beyond it on the other. -/
theorem beyond_reflect (x h l tol : ℚ) : C - x > C - l + tol ∨ C - x < C - h - tol ↔ x > h + tol ∨ x < l - tol := by
  constructor
  · rintro (hlow | hhigh)
    · exact .inr (by linarith)
    · exact .inl (by linarith)
  · rintro (hhigh | hlow)
    · exact .inr (by linarith)
    · exact .inl (by linarith)

theorem measure_reflect : measure (bars.map (OhlcBar.reflect C)) params.swapTouches (band.reflect C) (last.reflect C) =
    (measure bars params band last).reflect C := by
  simp only [measure, Measures.reflect, List.length_map, wilderAtr_reflect, width_reflect,
    TradingRangeParams.swapTouches, Measures.mk.injEq, true_and]
  refine ⟨?_, ?_, ?_⟩
  · exact touches_reflect _ _ _ _ _ _ _ (fun i => isPivotLow_reflect i _) fun _ => rfl
  · exact touches_reflect _ _ _ _ _ _ _ (fun i => isPivotHigh_reflect i _) fun _ => rfl
  · rw [← List.map_drop, List.any_map]
    refine congrArg (List.any _) (funext fun b => ?_)
    exact decide_eq_decide.2 (beyond_reflect _ _ _ _)

end measures

/-! ## Scores, zones and sides -/

section scores
variable {bars : List OhlcBar} {params : TradingRangeParams} {C : ℚ}

theorem touchScore_swap (s r : ℕ) : touchScore r s params.swapTouches = touchScore s r params := by
  simp only [touchScore, TradingRangeParams.swapTouches]
  rw [add_comm]

theorem volumeScoresByZone_reflect (lastIdx : ℕ) (longInZone shortInZone : Bool) :
    volumeScoresByZone (bars.map (OhlcBar.reflect C)) lastIdx params.swapTouches shortInZone longInZone =
      ((volumeScoresByZone bars lastIdx params longInZone shortInZone).2.1,
        (volumeScoresByZone bars lastIdx params longInZone shortInZone).1,
        (volumeScoresByZone bars lastIdx params longInZone shortInZone).2.2) := by
  have hlast : ((bars.map (OhlcBar.reflect C))[lastIdx]?.bind (·.volume)) = bars[lastIdx]?.bind (·.volume) := by
    rw [List.getElem?_map]
    cases bars[lastIdx]? <;> rfl
  have hprior (start : ℕ) : (((bars.map (OhlcBar.reflect C)).take lastIdx).drop start).filterMap
      (fun b => b.volume.filter (0 ≤ ·)) = ((bars.take lastIdx).drop start).filterMap fun b => b.volume.filter (0 ≤ ·) := by
    rw [← List.map_take, ← List.map_drop, List.filterMap_map]
    rfl
  simp only [volumeScoresByZone, hlast, hprior, TradingRangeParams.swapTouches]
  split
  · rfl
  · split
    · rfl
    · split
      · rfl
      · split <;> rfl

/-- The two edges do not overlap, so the order of the comparisons does not matter. -/
theorem classifyRangeZone_reflect (close rh rl f : ℚ) :
    classifyRangeZone (C - close) (C - rl) (C - rh) f = (classifyRangeZone close rh rl f).flip := by
  simp only [classifyRangeZone, sub_sub_sub_cancel_left]
  by_cases hw : rh - rl ≤ 1 / 10 ^ 12
  · rw [if_pos hw, if_pos hw]
    rfl
  · rw [if_neg hw, if_neg hw]
    have hedge : max (5 / 100) (min f (45 / 100)) ≤ 45 / 100 := max_le (by norm_num) (min_le_right _ _)
    have hpos : 0 < rh - rl := lt_trans (by norm_num) (not_le.1 hw)
    have hapart : (rh - rl) * max (5 / 100) (min f (45 / 100)) ≤ (rh - rl) * (45 / 100) :=
      mul_le_mul_of_nonneg_left hedge hpos.le
    by_cases hupper : close ≥ rh - (rh - rl) * max (5 / 100) (min f (45 / 100))
    · rw [if_neg (by linarith), if_pos (by linarith), if_pos hupper]
      rfl
    · by_cases hlower : close ≤ rl + (rh - rl) * max (5 / 100) (min f (45 / 100))
      · rw [if_pos (by linarith), if_neg hupper, if_pos hlower]
        rfl
      · rw [if_neg (by linarith), if_neg (by linarith), if_neg hupper, if_neg hlower]
        rfl

theorem applyRangeZoneAndReclaim_reflect (close rh rl : ℚ) (sweepLong fakeLong sweepShort fakeShort : Bool)
    (scoreLong scoreShort : ℤ) :
    applyRangeZoneAndReclaim params.swapTouches (C - close) (C - rl) (C - rh) sweepShort fakeShort sweepLong fakeLong
        scoreShort scoreLong =
      ((applyRangeZoneAndReclaim params close rh rl sweepLong fakeLong sweepShort fakeShort scoreLong scoreShort).1.flip,
        (applyRangeZoneAndReclaim params close rh rl sweepLong fakeLong sweepShort fakeShort scoreLong scoreShort).2.2,
        (applyRangeZoneAndReclaim params close rh rl sweepLong fakeLong sweepShort fakeShort scoreLong scoreShort).2.1) := by
  simp only [applyRangeZoneAndReclaim, classifyRangeZone_reflect, TradingRangeParams.swapTouches]
  split
  · rfl
  · cases classifyRangeZone close rh rl params.zoneEdgeFraction <;> rfl

/-- The filter leaves a score to one side at most. -/
theorem one_side_left (hfilter : params.enableRangeZoneFilter = true) (close rh rl : ℚ)
    (sweepLong fakeLong sweepShort fakeShort : Bool) (scoreLong scoreShort : ℤ) :
    (applyRangeZoneAndReclaim params close rh rl sweepLong fakeLong sweepShort fakeShort scoreLong scoreShort).2.1 = 0 ∨
      (applyRangeZoneAndReclaim params close rh rl sweepLong fakeLong sweepShort fakeShort scoreLong scoreShort).2.2 =
        0 := by
  have hzone : classifyRangeZone close rh rl params.zoneEdgeFraction ≠ .unknown := by
    unfold classifyRangeZone
    dsimp only
    split_ifs <;> simp
  unfold applyRangeZoneAndReclaim
  rw [hfilter]
  cases hclass : classifyRangeZone close rh rl params.zoneEdgeFraction with
  | upper => exact .inl rfl
  | mid => exact .inl rfl
  | lower => exact .inr rfl
  | unknown => exact absurd hclass hzone

/-- A long wins a tie, but there is none above the threshold. -/
theorem chooseSide_swap {threshold scoreLong scoreShort : ℤ} (hpos : 0 < threshold) (hone : scoreLong = 0 ∨ scoreShort = 0) :
    chooseSide threshold scoreShort scoreLong =
      ((chooseSide threshold scoreLong scoreShort).1.flip, (chooseSide threshold scoreLong scoreShort).2) := by
  unfold chooseSide
  rcases hone with rfl | rfl
  · by_cases hshort : scoreShort ≥ threshold
    · rw [if_pos ⟨hshort, by omega⟩, if_neg (by omega), if_pos hshort]
      rfl
    · rw [if_neg (by omega), if_neg (by omega), if_neg (by omega), if_neg hshort, max_comm]
      rfl
  · by_cases hlong : scoreLong ≥ threshold
    · rw [if_neg (by omega), if_pos hlong, if_pos ⟨hlong, by omega⟩]
      rfl
    · rw [if_neg (by omega), if_neg hlong, if_neg (by omega), if_neg (by omega), max_comm]
      rfl

end scores

/-! ## The result -/

section result
variable {bars : List OhlcBar} {params : TradingRangeParams} {C : ℚ} {m : Measures}

theorem below_reflect (x y t : ℚ) : C - x < C - y - t ↔ y + t < x := by
  constructor <;> intro h <;> linarith

theorem above_reflect (x y t : ℚ) : C - y + t < C - x ↔ x < y - t := by
  constructor <;> intro h <;> linarith

namespace Measures

theorem longSweepLatent_reflect : (m.reflect C).longSweepLatent = m.shortSweepLatent := by
  simp [longSweepLatent, shortSweepLatent, reflect, Band.reflect, OhlcBar.reflect]

theorem shortSweepLatent_reflect : (m.reflect C).shortSweepLatent = m.longSweepLatent := by
  simp [longSweepLatent, shortSweepLatent, reflect, Band.reflect, OhlcBar.reflect]

theorem wickRejectionLong_reflect : (m.reflect C).wickRejectionLong = m.wickRejectionShort := longSweepLatent_reflect

theorem wickRejectionShort_reflect : (m.reflect C).wickRejectionShort = m.wickRejectionLong := shortSweepLatent_reflect

theorem tol_reflect : (m.reflect C).tol params.swapTouches = m.tol params := by
  rw [tol, reflect, width_reflect, tolPx_swapTouches, tol]

theorem rangeWidthAtr_reflect : (m.reflect C).rangeWidthAtr = m.rangeWidthAtr := by
  simp only [rangeWidthAtr, reflect, width_reflect]

theorem fbWickPx_reflect : (m.reflect C).fbWickPx params.swapTouches = m.fbWickPx params := by
  simp only [fbWickPx, tol_reflect]
  simp only [reflect, width_reflect]

theorem fakeBreakoutLong_reflect : (m.reflect C).fakeBreakoutLong params.swapTouches = m.fakeBreakoutShort params := by
  rw [fakeBreakoutLong, fbWickPx_reflect, fakeBreakoutShort]
  exact decide_eq_decide.2 (and_congr (below_reflect _ _ _) (sub_le_sub_iff_left C))

theorem fakeBreakoutShort_reflect : (m.reflect C).fakeBreakoutShort params.swapTouches = m.fakeBreakoutLong params := by
  rw [fakeBreakoutShort, fbWickPx_reflect, fakeBreakoutLong]
  exact decide_eq_decide.2 (and_congr (above_reflect _ _ _) (sub_le_sub_iff_left C))

theorem touchesOk_reflect : (m.reflect C).touchesOk params.swapTouches = m.touchesOk params := by
  simp only [touchesOk, reflect, TradingRangeParams.swapTouches]
  exact decide_eq_decide.2 and_comm

theorem regimeOk_reflect : (m.reflect C).regimeOk params.swapTouches = m.regimeOk params := rfl

theorem rangeTooNarrow_reflect : (m.reflect C).rangeTooNarrow params.swapTouches = m.rangeTooNarrow params := by
  rw [rangeTooNarrow, rangeWidthAtr_reflect]
  rfl

theorem rangeTooWide_reflect : (m.reflect C).rangeTooWide params.swapTouches = m.rangeTooWide params := by
  rw [rangeTooWide, rangeWidthAtr_reflect]
  rfl

theorem hardOk_reflect : (m.reflect C).hardOk params.swapTouches = m.hardOk params := by
  rw [hardOk, touchesOk_reflect, rangeTooNarrow_reflect, rangeTooWide_reflect]
  rfl

theorem longInZone_reflect : (m.reflect C).longInZone params.swapTouches = m.shortInZone params := by
  rw [longInZone, tol_reflect, shortInZone]
  simp only [reflect, Band.reflect, OhlcBar.reflect, abs_reflect]

theorem shortInZone_reflect : (m.reflect C).shortInZone params.swapTouches = m.longInZone params := by
  rw [shortInZone, tol_reflect, longInZone]
  simp only [reflect, Band.reflect, OhlcBar.reflect, abs_reflect]

theorem scoreTouch_reflect : (m.reflect C).scoreTouch params.swapTouches = m.scoreTouch params := touchScore_swap _ _

theorem scoreRejectionLong_reflect :
    (m.reflect C).scoreRejectionLong params.swapTouches = m.scoreRejectionShort params := by
  rw [scoreRejectionLong, longInZone_reflect, wickRejectionLong_reflect, fakeBreakoutLong_reflect, scoreRejectionShort]

theorem scoreRejectionShort_reflect :
    (m.reflect C).scoreRejectionShort params.swapTouches = m.scoreRejectionLong params := by
  rw [scoreRejectionShort, shortInZone_reflect, wickRejectionShort_reflect, fakeBreakoutShort_reflect, scoreRejectionLong]

theorem scoreBreakoutLong_reflect : (m.reflect C).scoreBreakoutLong params.swapTouches = m.scoreBreakoutShort params := by
  rw [scoreBreakoutLong, fakeBreakoutLong_reflect, wickRejectionLong_reflect, longSweepLatent_reflect, scoreBreakoutShort]

theorem scoreBreakoutShort_reflect : (m.reflect C).scoreBreakoutShort params.swapTouches = m.scoreBreakoutLong params := by
  rw [scoreBreakoutShort, fakeBreakoutShort_reflect, wickRejectionShort_reflect, shortSweepLatent_reflect, scoreBreakoutLong]

theorem guarded_reflect (score : ℤ) : (m.reflect C).guarded params.swapTouches score = m.guarded params score := by
  rw [guarded, regimeOk_reflect, hardOk_reflect, guarded]

theorem volumeScores_reflect : (m.reflect C).volumeScores params.swapTouches (bars.map (OhlcBar.reflect C)) =
    ((m.volumeScores params bars).2.1, (m.volumeScores params bars).1, (m.volumeScores params bars).2.2) := by
  rw [volumeScores, longInZone_reflect, shortInZone_reflect]
  exact volumeScoresByZone_reflect _ _ _

theorem zoned_reflect (rsiExtreme : Bool × Bool) :
    (m.reflect C).zoned params.swapTouches (bars.map (OhlcBar.reflect C)) rsiExtreme.swap =
      ((m.zoned params bars rsiExtreme).1.flip, (m.zoned params bars rsiExtreme).2.2,
        (m.zoned params bars rsiExtreme).2.1) := by
  simp only [zoned, volumeScores_reflect, scoreTouch_reflect, scoreRejectionLong_reflect, scoreRejectionShort_reflect,
    scoreBreakoutLong_reflect, scoreBreakoutShort_reflect, guarded_reflect, longSweepLatent_reflect,
    shortSweepLatent_reflect, fakeBreakoutLong_reflect, fakeBreakoutShort_reflect, Prod.fst_swap, Prod.snd_swap]
  exact applyRangeZoneAndReclaim_reflect _ _ _ _ _ _ _ _ _

theorem setup_reflect (hfilter : params.enableRangeZoneFilter = true) (hthreshold : 0 < params.setupScoreThreshold)
    (hstrong : 0 < params.setupScoreStrongThreshold) (rsiExtreme : Bool × Bool) :
    (m.reflect C).setup params.swapTouches (bars.map (OhlcBar.reflect C)) rsiExtreme.swap =
      ((m.setup params bars rsiExtreme).1.flip, (m.setup params bars rsiExtreme).2) := by
  have hpos : 0 < m.threshold params := by
    unfold threshold
    split
    · exact hthreshold
    · exact hstrong
  rw [setup, zoned_reflect]
  exact chooseSide_swap hpos (one_side_left hfilter _ _ _ _ _ _ _ _ _)

end Measures

/-- **The judgement** of the measures upside down. -/
theorem judge_reflect (hfilter : params.enableRangeZoneFilter = true) (hthreshold : 0 < params.setupScoreThreshold)
    (hstrong : 0 < params.setupScoreStrongThreshold) (rsiExtreme : Bool × Bool) :
    judge (bars.map (OhlcBar.reflect C)) params.swapTouches (m.reflect C) rsiExtreme.swap =
      (judge bars params m rsiExtreme).mirror C := by
  have hmid : (C - m.band.low + (C - m.band.high)) * (1 / 2) = C - (m.band.high + m.band.low) * (1 / 2) := by ring
  simp only [judge, TradingRangeResult.mirror, Measures.zoned_reflect, Measures.setup_reflect hfilter hthreshold hstrong,
    Measures.volumeScores_reflect, Measures.scoreTouch_reflect, Measures.scoreRejectionLong_reflect,
    Measures.scoreRejectionShort_reflect, Measures.scoreBreakoutLong_reflect, Measures.scoreBreakoutShort_reflect,
    Measures.longSweepLatent_reflect, Measures.shortSweepLatent_reflect, Measures.fakeBreakoutLong_reflect,
    Measures.fakeBreakoutShort_reflect, Measures.regimeOk_reflect, Measures.hardOk_reflect, Measures.touchesOk_reflect,
    Measures.rangeTooNarrow_reflect, Measures.rangeTooWide_reflect, Measures.rangeWidthAtr_reflect,
    Measures.wickRejectionLong_reflect, Measures.wickRejectionShort_reflect, Prod.fst_swap, Prod.snd_swap,
    Option.map_some, ← hmid]
  simp only [Measures.reflect, width_reflect]
  rfl

end result

/-! ## The RSI -/

section rsi
variable {bars : List OhlcBar} {params : TradingRangeParams} {C low high : ℚ} {avg : ℚ × ℚ}

/-- `(avg_g, avg_l)` at the last bar. -/
def lastAverages (bars : List OhlcBar) (params : TradingRangeParams) : Option (ℚ × ℚ) :=
  (wilderAverages (bars.map (·.close)) (rsiPeriod params)).getLast?.join

/-- Where the guard on the average loss does not show: both averages are above it, or the bounds do not tell the two
values apart that it makes of one. -/
def RsiMirrors (high : ℚ) (avg : ℚ × ℚ) : Prop :=
  if 1 / 10 ^ 12 < avg.1 ∧ 1 / 10 ^ 12 < avg.2 then True
  else if avg.1 ≤ 1 / 10 ^ 12 ∧ avg.2 ≤ 1 / 10 ^ 12 then 10000 / 101 ≤ high
  else 100 * min avg.1 avg.2 / (avg.1 + avg.2) < 100 - high ↔ high < 10000 / 101

theorem rsiValue_guarded {g l : ℚ} (h : l ≤ 1 / 10 ^ 12) : rsiValue (g, l) = 10000 / 101 := by
  rw [rsiValue, if_pos h]
  norm_num

theorem rsiValue_ratio {g l : ℚ} (h : 1 / 10 ^ 12 < l) (hgain : 0 ≤ g) : rsiValue (g, l) = 100 * g / (g + l) := by
  have hloss : 0 < l := lt_trans (by norm_num) h
  have hsum : 0 < g + l := by linarith
  rw [rsiValue, if_neg (not_le.2 h)]
  field_simp
  ring

/-- The smaller average gives less than half. -/
theorem ratio_lt {x y : ℚ} (hx : 0 ≤ x) (h : x < y) : 100 * x / (x + y) < 50 := by
  have hsum : 0 < x + y := by linarith
  rw [div_lt_iff₀ hsum]
  linarith

theorem rsi_mirrors_iff (hsum : low + high = 100) (hlt : low < high) (hgain : 0 ≤ avg.1) (hloss : 0 ≤ avg.2) :
    ((rsiValue avg.swap < low ↔ high < rsiValue avg) ∧ (high < rsiValue avg.swap ↔ rsiValue avg < low)) ↔
      RsiMirrors high avg := by
  obtain ⟨g, l⟩ := avg
  have hlow : low = 100 - high := by linarith
  have hhigh : 50 < high := by linarith
  subst hlow
  simp only [Prod.swap_prod_mk, RsiMirrors]
  rcases le_or_gt g (1 / 10 ^ 12) with hg | hg <;> rcases le_or_gt l (1 / 10 ^ 12) with hl | hl
  · -- the averages of a flat window
    rw [if_neg fun h => hg.not_gt h.1, if_pos ⟨hg, hl⟩, rsiValue_guarded hl, rsiValue_guarded hg]
    constructor
    · rintro ⟨h, -⟩
      by_contra hless
      have habsurd := h.2 (not_le.1 hless)
      linarith
    · intro h
      exact ⟨iff_of_false (by linarith) h.not_gt, iff_of_false h.not_gt (by linarith)⟩
  · have hratio := ratio_lt hgain (hg.trans_lt hl)
    rw [if_neg fun h => hg.not_gt h.1, if_neg fun h => h.2.not_gt hl, rsiValue_ratio hl hgain, rsiValue_guarded hg,
      min_eq_left (hg.trans hl.le)]
    constructor
    · rintro ⟨-, h⟩
      exact h.symm
    · intro h
      exact ⟨iff_of_false (by linarith) (by linarith), h.symm⟩
  · have hratio := ratio_lt hloss (hl.trans_lt hg)
    rw [if_neg fun h => hl.not_gt h.2, if_neg fun h => h.1.not_gt hg, rsiValue_guarded hl, rsiValue_ratio hg hloss,
      min_eq_right (hl.trans hg.le), add_comm g l]
    constructor
    · rintro ⟨h, -⟩
      exact h
    · intro h
      exact ⟨h, iff_of_false (by linarith) (by linarith)⟩
  · have hpos : 0 < g + l := by
      have hstep : (0 : ℚ) < 1 / 10 ^ 12 := by norm_num
      linarith
    have hadd : 100 * l / (l + g) = 100 - 100 * g / (g + l) := by
      rw [add_comm l g, eq_sub_iff_add_eq, ← add_div, div_eq_iff hpos.ne']
      ring
    rw [if_pos ⟨hg, hl⟩, rsiValue_ratio hl hgain, rsiValue_ratio hg hloss, hadd]
    refine iff_of_true ⟨?_, ?_⟩ trivial
    · rw [sub_lt_sub_iff_left]
    · constructor <;> intro h <;> linarith

theorem gain_nonneg {d : ℚ} : 0 ≤ gain d := by
  unfold gain
  split <;> simp_all

theorem loss_nonneg {d : ℚ} : 0 ≤ loss d := by
  unfold loss
  split
  · exact le_rfl
  · linarith

theorem smooth_nonneg {p d : ℚ} (hp : 1 ≤ p) (h : 0 ≤ avg.1 ∧ 0 ≤ avg.2) :
    0 ≤ (smooth p avg d).1 ∧ 0 ≤ (smooth p avg d).2 := by
  have hp' : 0 ≤ p - 1 := by linarith
  have hg : 0 ≤ gain d := gain_nonneg
  have hl : 0 ≤ loss d := loss_nonneg
  obtain ⟨h1, h2⟩ := h
  constructor
  · exact div_nonneg (add_nonneg (mul_nonneg h1 hp') hg) (by linarith)
  · exact div_nonneg (add_nonneg (mul_nonneg h2 hp') hl) (by linarith)

theorem warmup_nonneg {f : ℚ → ℚ} (hf : ∀ d, 0 ≤ f d) (ds : List ℚ) (period : ℕ) :
    0 ≤ ((ds.take period).map f).sum / (period : ℚ) := by
  apply div_nonneg
  · apply List.sum_nonneg
    intro x hx
    obtain ⟨d, -, rfl⟩ := List.mem_map.1 hx
    exact hf d
  · exact period.cast_nonneg

/-- What the start has and every step keeps, every entry of a scan has. -/
theorem forall_mem_scanl {α β : Type*} {f : β → α → β} {P : β → Prop} (hf : ∀ b a, P b → P (f b a))
    {b : β} (hb : P b) (l : List α) : ∀ x ∈ l.scanl f b, P x := by
  induction l generalizing b with
  | nil => simpa using hb
  | cons a l ih =>
    intro x hx
    rw [List.scanl_cons] at hx
    rcases List.mem_cons.1 hx with rfl | hx
    · exact hb
    · exact ih (hf b a hb) x hx

theorem wilderAverages_nonneg {closes : List ℚ} {period : ℕ} (h : some avg ∈ wilderAverages closes period) :
    0 ≤ avg.1 ∧ 0 ≤ avg.2 := by
  unfold wilderAverages at h
  split at h
  · simp at h
  · rename_i hlong
    have hone : (1 : ℚ) ≤ period := by
      have hperiod : 1 ≤ period := by omega
      exact_mod_cast hperiod
    rcases List.mem_append.1 h with h | h
    · simp at h
    · obtain ⟨a, ha, heq⟩ := List.mem_map.1 h
      obtain rfl := Option.some.inj heq
      exact forall_mem_scanl (P := fun a => 0 ≤ a.1 ∧ 0 ≤ a.2) (fun _ _ => smooth_nonneg hone)
        ⟨warmup_nonneg (fun _ => gain_nonneg) _ _, warmup_nonneg (fun _ => loss_nonneg) _ _⟩ _ _ ha

theorem lastAverages_nonneg (h : lastAverages bars params = some avg) : 0 ≤ avg.1 ∧ 0 ≤ avg.2 := by
  unfold lastAverages at h
  rw [Option.join_eq_some_iff] at h
  exact wilderAverages_nonneg (List.mem_of_getLast? h)

theorem getLast?_join_map {α β : Type*} (f : α → β) (l : List (Option α)) :
    (l.map (Option.map f)).getLast?.join = l.getLast?.join.map f := by
  rw [List.getLast?_map]
  cases l.getLast? with
  | none => rfl
  | some a => rfl

theorem lastAverages_reflect (bars : List OhlcBar) (params : TradingRangeParams) (C : ℚ) :
    lastAverages (bars.map (OhlcBar.reflect C)) params.swapTouches = (lastAverages bars params).map Prod.swap := by
  have hcloses : (bars.map (OhlcBar.reflect C)).map (·.close) = (bars.map (·.close)).map (C - ·) := by
    rw [List.map_map, List.map_map]
    rfl
  rw [lastAverages, hcloses, wilderAverages_reflect, getLast?_join_map]
  rfl

theorem rsiExtremes_eq (bars : List OhlcBar) (params : TradingRangeParams) : rsiExtremes bars params =
    (((lastAverages bars params).map rsiValue).any (· < (rsiBounds params).1),
      ((lastAverages bars params).map rsiValue).any (· > (rsiBounds params).2)) := by
  rw [rsiExtremes, wilderRsi, getLast?_join_map]
  rfl

theorem rsiBounds_spec (hsum : params.rsiOversold + params.rsiOverbought = 100) :
    (rsiBounds params).1 + (rsiBounds params).2 = 100 ∧ (rsiBounds params).1 < (rsiBounds params).2 := by
  unfold rsiBounds
  split
  · constructor <;> norm_num
  · rename_i h
    exact ⟨hsum, not_le.1 h⟩

/-- The extremes change sides exactly where the last averages mirror. -/
theorem rsiExtremes_reflect_iff (hsum : params.rsiOversold + params.rsiOverbought = 100) :
    rsiExtremes (bars.map (OhlcBar.reflect C)) params.swapTouches = (rsiExtremes bars params).swap ↔
      ∀ avg ∈ lastAverages bars params, RsiMirrors (rsiBounds params).2 avg := by
  obtain ⟨hbounds, hlt⟩ := rsiBounds_spec hsum
  have hsame : rsiBounds params.swapTouches = rsiBounds params := rfl
  rw [rsiExtremes_eq, rsiExtremes_eq, lastAverages_reflect, hsame, Prod.swap_prod_mk, Prod.mk.injEq]
  cases hlast : lastAverages bars params with
  | none => simp
  | some avg =>
    obtain ⟨hgain, hloss⟩ := lastAverages_nonneg hlast
    have hmirrors := rsi_mirrors_iff hbounds hlt hgain hloss
    simp only [Option.map_some, Option.any_some, decide_eq_decide, Option.mem_some_iff, forall_eq', gt_iff_lt]
    exact hmirrors

end rsi

/-! ## The analysis -/

section analysis
variable {bars : List OhlcBar} {params : TradingRangeParams}

theorem oscillatorScore_inj {a b : Bool} (h : oscillatorScore a = oscillatorScore b) : a = b := by
  revert a b
  decide

theorem mirror_tooFewBars (C : ℚ) (n lookback : ℕ) : (tooFewBars n lookback).mirror C = tooFewBars n lookback := rfl

/-- With enough bars there are a window and a last bar. -/
theorem exists_window (h : max params.lookback 5 + 2 ≤ bars.length) : ∃ first rest last,
    (bars.drop (bars.length - 1 - max params.lookback 5)).take (max params.lookback 5) = first :: rest ∧
      bars.getLast? = some last := by
  have hne : bars ≠ [] := List.ne_nil_of_length_pos (by omega)
  have hwindow : (bars.drop (bars.length - 1 - max params.lookback 5)).take (max params.lookback 5) ≠ [] := by
    apply List.ne_nil_of_length_pos
    rw [List.length_take, List.length_drop]
    omega
  obtain ⟨first, rest, hsplit⟩ := List.exists_cons_of_ne_nil hwindow
  exact ⟨first, rest, _, hsplit, List.getLast?_eq_some_getLast hne⟩

/-- **The trading range upside down.** With the filter on the zones and positive thresholds the sides of the result are
exchanged, exactly if there are too few bars or the last averages of the RSI mirror. -/
theorem analyze_mirror_iff (bars : List OhlcBar) (params : TradingRangeParams) (C : ℚ)
    (hsum : params.rsiOversold + params.rsiOverbought = 100) (hfilter : params.enableRangeZoneFilter = true)
    (hthreshold : 0 < params.setupScoreThreshold) (hstrong : 0 < params.setupScoreStrongThreshold) :
    analyzeTradingRange (bars.map (OhlcBar.reflect C)) params.swapTouches = (analyzeTradingRange bars params).mirror C ↔
      (max params.lookback 5 + 2 ≤ bars.length →
        ∀ avg ∈ lastAverages bars params, RsiMirrors (rsiBounds params).2 avg) := by
  have hlookback : params.swapTouches.lookback = params.lookback := rfl
  by_cases hfew : bars.length < max params.lookback 5 + 2
  · refine iff_of_true ?_ fun h => absurd hfew (not_lt.2 h)
    rw [analyzeTradingRange, analyzeTradingRange]
    simp only [List.length_map, hlookback, if_pos hfew, mirror_tooFewBars]
  · have henough := not_lt.1 hfew
    obtain ⟨first, rest, last, hwindow, hlast⟩ := exists_window henough
    have hresult : analyzeTradingRange bars params =
        judge bars params (measure bars params (bandOf first rest) last) (rsiExtremes bars params) := by
      rw [analyzeTradingRange]
      simp only [if_neg hfew, hwindow, hlast]
    have hresult' : analyzeTradingRange (bars.map (OhlcBar.reflect C)) params.swapTouches =
        judge (bars.map (OhlcBar.reflect C)) params.swapTouches
          ((measure bars params (bandOf first rest) last).reflect C)
          (rsiExtremes (bars.map (OhlcBar.reflect C)) params.swapTouches) := by
      rw [analyzeTradingRange]
      simp only [List.length_map, hlookback, if_neg hfew, ← List.map_drop, ← List.map_take, hwindow, List.map_cons,
        List.getLast?_map, hlast, Option.map_some, bandOf_reflect, measure_reflect]
    rw [← rsiExtremes_reflect_iff hsum, hresult, hresult']
    constructor
    · intro heq _
      have hlong := congrArg TradingRangeResult.scoreOscillatorLong heq
      have hshort := congrArg TradingRangeResult.scoreOscillatorShort heq
      exact Prod.ext (oscillatorScore_inj hlong) (oscillatorScore_inj hshort)
    · intro hmirrors
      rw [hmirrors henough]
      exact judge_reflect hfilter hthreshold hstrong _

end analysis

/-- The defaults, for seven bars. -/
def shortParams : TradingRangeParams :=
  { TradingRangeParams.default with lookback := 5, pivotWindow := 1, rsiPeriod := 2 }

def barsOf (rows : List (ℚ × ℚ × ℚ)) : List OhlcBar :=
  rows.zipIdx.map fun ((high, low, close), i) => ⟨high, low, close, i, none⟩

/-- A double bottom. -/
def doubleBottom : List OhlcBar :=
  barsOf [(105, 101, 104), (104, 100, 101), (110, 103, 105), (104, 100, 102), (105, 101, 103), (104, 102, 104), (105, 102, 103)]

theorem doubleBottom_mirrors :
    analyzeTradingRange (doubleBottom.map (OhlcBar.reflect 200)) shortParams.swapTouches =
      (analyzeTradingRange doubleBottom shortParams).mirror 200 := by
  refine (analyze_mirror_iff doubleBottom shortParams 200 (by decide +kernel) rfl (by decide) (by decide)).2 ?_
  intro _ avg havg
  have hlast : lastAverages doubleBottom shortParams = some (1 / 2, 25 / 32) := by decide +kernel
  obtain rfl := Option.some.inj (hlast.symm.trans havg)
  have habove : (1 / 10 ^ 12 : ℚ) < 1 / 2 ∧ (1 / 10 ^ 12 : ℚ) < 25 / 32 := by decide +kernel
  rw [RsiMirrors, if_pos habove]
  trivial

/-- Closes that stand still count as overbought, from either side; and the double bottom upside down has too few lows
for the minimums of the sides as they are. -/
theorem sides_not_alike :
    (analyzeTradingRange (barsOf (List.replicate 7 (101, 99, 100))) shortParams).scoreOscillatorShort = 15
    ∧ analyzeTradingRange ((barsOf (List.replicate 7 (101, 99, 100))).map (OhlcBar.reflect 200)) shortParams ≠
      (analyzeTradingRange (barsOf (List.replicate 7 (101, 99, 100))) shortParams).mirror 200
    ∧ (analyzeTradingRange doubleBottom { shortParams with minResistanceTouches := 1 }).guardrailsPass = true
    ∧ (analyzeTradingRange (doubleBottom.map (OhlcBar.reflect 200))
        { shortParams with minResistanceTouches := 1 }).guardrailsPass = false := by
  decide +kernel

end Qtss.ChartPatterns.TradingRange
