import Qtss.ChartPatterns.Analyze
/-
# What the scan of the levels returns

A level above the base has fewer pivots than the one below or none, so with five pivots or more to a window the loop
ends by itself, long before its bound. What is returned has passed the filters (`Passed`), within the ranges that stood
when its window was read.
-/

namespace Qtss.ChartPatterns

variable {R : Type*} {f : Ratios Price R} {inp : AnalyzeInput} {zz : ZigzagLite Price R} {s : Scan}
  {six : List PivotTriple} {bars : BarMap} {params : SixPivotScanParams} {allowed : Option (List ℤ)}
  {filter : ChannelSixWindowFilter} {scan : SixPivotScanResult} {outcome o : ChannelSixScanOutcome}

/-! ## A window -/

/-- The bar ratios of a window, the second of six pivots only. -/
def barRatiosOk (params : SixPivotScanParams) (six : List PivotTriple) : Bool :=
  match six with
  | p0 :: p1 :: p2 :: p3 :: p4 :: rest =>
    checkBarRatio p0.bar p2.bar p4.bar params.barRatioEnabled params.barRatioLimit &&
      (if params.numberOfPivots = 6 then rest.head? else none).all fun p5 =>
        checkBarRatio p1.bar p3.bar p5.bar params.barRatioEnabled params.barRatioLimit
  | _ => false

/-- The filters a match has passed. -/
structure Passed (bars : BarMap) (params : SixPivotScanParams) (allowed : Option (List ℤ)) (dirs : Option (List ℤ))
    (six : List PivotTriple) (scan : SixPivotScanResult) : Prop where
  scanned : scanSixAlternatingPivots six bars params = some scan
  barRatio : barRatiosOk params six
  size : checkSizePivots six params.sizeFilters
  type : typeAllowed allowed scan.patternTypeId
  direction : ∀ last prev older, six.reverse = last :: prev :: older → directionAllowed dirs scan.patternTypeId last prev

/-- It does not start inside one of the ranges. -/
def StartsApart (ranges : List (ℤ × ℤ)) (six : List PivotTriple) : Prop :=
  ∀ p ∈ six.head?, ∀ range ∈ ranges, startsInside p.bar range = false

theorem ite_error_eq_ok {ε α : Type*} {c : Prop} [Decidable c] {e : ε} {x : Except ε α} {r : α} :
    (if c then .error e else x) = .ok r ↔ ¬ c ∧ x = .ok r := by
  split <;> simp_all

theorem length_of_scan (h : scanSixAlternatingPivots six bars params = some scan) :
    (params.numberOfPivots = 5 ∨ params.numberOfPivots = 6) ∧ six.length = params.numberOfPivots := by
  by_cases hguard : ¬ (params.numberOfPivots = 5 ∨ params.numberOfPivots = 6) ∨ six.length ≠ params.numberOfPivots
  · unfold scanSixAlternatingPivots at h
    rw [if_pos hguard] at h
    simp at h
  · tauto

theorem tryScanSixWindow_ok (h : tryScanSixWindow six bars params allowed filter = .ok scan) :
    Passed bars params allowed filter.allowedLastPivotDirections six scan ∧
      (filter.avoidOverlap → StartsApart filter.existingRanges six) := by
  unfold tryScanSixWindow at h
  simp only [ite_error_eq_ok] at h
  obtain ⟨hlen, -, h⟩ := h
  rcases six with _ | ⟨p0, _ | ⟨p1, _ | ⟨p2, _ | ⟨p3, _ | ⟨p4, rest⟩⟩⟩⟩⟩
  case cons.cons.cons.cons.cons =>
    simp only [ite_error_eq_ok] at h
    obtain ⟨hupper, hlower, hsize, hoverlap, -, -, -, h⟩ := h
    split at h
    · simp at h
    next found hfound =>
      simp only [ite_error_eq_ok, Except.ok.injEq] at h
      obtain ⟨htype, hdirection, -, rfl⟩ := h
      refine ⟨⟨hfound, ?_, by simpa using hsize, by simpa using htype, ?_⟩, ?_⟩
      · rw [barRatiosOk, Bool.and_eq_true]
        refine ⟨by simpa using hupper, ?_⟩
        rcases hp5 : (if params.numberOfPivots = 6 then rest.head? else none) with _ | p5
        · rfl
        · simpa [hp5] using hlower
      · intro last prev older hrev
        obtain ⟨hn, hlength⟩ := length_of_scan hfound
        rcases rest with _ | ⟨p5, _ | ⟨p6, rest⟩⟩
        · have hn : params.numberOfPivots ≠ 6 := by simp [← hlength]
          obtain ⟨rfl, rfl, -⟩ : p4 = last ∧ p3 = prev ∧ _ := by simpa using hrev
          simpa [hn] using hdirection
        · have hn : params.numberOfPivots = 6 := by simp [← hlength]
          obtain ⟨rfl, rfl, -⟩ : p5 = last ∧ p4 = prev ∧ _ := by simpa using hrev
          simpa [hn] using hdirection
        · simp only [List.length_cons] at hlength
          omega
      · intro havoid p hp range hrange
        obtain rfl := Option.some.inj hp
        rw [havoid, Bool.true_and, List.any_eq_true, not_exists] at hoverlap
        exact Bool.eq_false_iff.2 fun h => hoverlap range ⟨hrange, h⟩
  all_goals simp at h

/-! ## The windows of a level -/

/-- What the scan has found stands. -/
structure Scan.Sound (s : Scan) (inp : AnalyzeInput) : Prop where
  bounded : s.outcomes.length ≤ inp.maxMatches
  room : s.done = false → s.outcomes.length < inp.maxMatches
  passed : ∀ o ∈ s.outcomes, Passed inp.bars inp.params inp.allowedPatternIds inp.windowFilter.allowedLastPivotDirections
    o.pivots o.scan
  /-- With `avoid_overlap`, the ranges are those given and those of the outcomes. -/
  ranges : inp.windowFilter.avoidOverlap →
    s.overlapRanges = inp.windowFilter.existingRanges ++ s.outcomes.map (barRange ·.pivots)
  outside : inp.windowFilter.avoidOverlap → ∀ o ∈ s.outcomes, StartsApart inp.windowFilter.existingRanges o.pivots
  apart : inp.windowFilter.avoidOverlap → s.outcomes.Pairwise fun a b => StartsApart [barRange a.pivots] b.pivots

variable (inp) in
theorem sound_start (ranges : List (ℤ × ℤ)) (e : ChannelSixReject) (hranges : ranges = inp.windowFilter.existingRanges)
    (hmax : 0 < inp.maxMatches) : Scan.Sound ⟨[], ranges, e, false, 0⟩ inp where
  bounded := Nat.zero_le _
  room _ := hmax
  passed o ho := by simp at ho
  ranges _ := by simp [hranges]
  outside _ o ho := by simp at ho
  apart _ := List.Pairwise.nil

theorem Scan.Sound.rejected (h : s.Sound inp) (e : ChannelSixReject) : (s.rejected e).Sound inp := by
  unfold Scan.rejected
  split
  · exact { h with }
  · exact h

variable (outcome) in
/-- **One match more.** -/
theorem Scan.Sound.found (h : s.Sound inp) (hopen : s.done = false)
    (hpassed : Passed inp.bars inp.params inp.allowedPatternIds inp.windowFilter.allowedLastPivotDirections
      outcome.pivots outcome.scan)
    (hapart : inp.windowFilter.avoidOverlap → StartsApart s.overlapRanges outcome.pivots) :
    (s.found inp outcome).Sound inp where
  bounded := by
    have := h.room hopen
    simp only [Scan.found, List.length_append, List.length_singleton]
    omega
  room hdone := by
    have := h.room hopen
    simp only [Scan.found, List.length_append, List.length_singleton, decide_eq_false_iff_not] at hdone ⊢
    omega
  passed o ho := by
    rcases List.mem_append.1 ho with ho | ho
    · exact h.passed o ho
    · rw [List.mem_singleton.1 ho]
      exact hpassed
  ranges havoid := by
    simp only [Scan.found, if_pos havoid, h.ranges havoid, List.map_append, List.map_singleton, List.append_assoc]
  outside havoid o ho := by
    rcases List.mem_append.1 ho with ho | ho
    · exact h.outside havoid o ho
    · rw [List.mem_singleton.1 ho]
      intro p hp range hrange
      refine hapart havoid p hp range ?_
      rw [h.ranges havoid]
      exact List.mem_append_left _ hrange
  apart havoid := by
    refine List.pairwise_append.2 ⟨h.apart havoid, List.pairwise_singleton _ _, fun o ho o' ho' => ?_⟩
    rw [List.mem_singleton.1 ho']
    intro p hp range hrange
    refine hapart havoid p hp range ?_
    rw [h.ranges havoid, List.mem_singleton.1 hrange]
    exact List.mem_append_right _ (List.mem_map_of_mem ho)

theorem sound_scanSkips (skips : List ℕ) (h : s.Sound inp) (hopen : s.done = false) :
    (scanSkips inp zz skips s).Sound inp := by
  induction skips generalizing s with
  | nil => exact h
  | cons skip skips ih =>
    unfold scanSkips
    split
    · exact h
    next six _ =>
      split
      next scan hok =>
        obtain ⟨hpassed, hapart⟩ := tryScanSixWindow_ok hok
        have hfound := h.found ⟨scan, six, inp.zigzagPivotCount, skip, zz.level⟩ hopen hpassed hapart
        simp only
        split
        · exact hfound
        next hdone => exact ih hfound (Bool.eq_false_iff.2 hdone)
      next e _ =>
        refine ih (h.rejected e) ?_
        unfold Scan.rejected
        split <;> exact hopen

theorem levels_scanSkips (skips : List ℕ) (s : Scan) : (scanSkips inp zz skips s).levels = s.levels := by
  induction skips generalizing s with
  | nil => rfl
  | cons skip skips ih =>
    unfold scanSkips
    split
    · rfl
    · split
      · simp only
        split
        · rfl
        · rw [ih]
          rfl
      · rw [ih]
        unfold Scan.rejected
        split <;> rfl

/-! ## The levels -/

variable (zz) in
theorem sound_scanLevel (h : s.Sound inp) (hopen : s.done = false) : (scanLevel inp zz s).Sound inp := by
  have hcounted : Scan.Sound { s with levels := s.levels + 1 } inp := { h with }
  unfold scanLevel
  simp only
  split
  · exact { hcounted with }
  · exact sound_scanSkips _ hcounted hopen

variable (inp zz) in
theorem levels_scanLevel (s : Scan) : (scanLevel inp zz s).levels = s.levels + 1 := by
  unfold scanLevel
  simp only
  split
  · rfl
  · rw [levels_scanSkips]

variable (zz) in
theorem sound_scanLevels (fuel : ℕ) (h : s.Sound inp) (hopen : s.done = false) :
    (scanLevels f inp fuel zz s).Sound inp := by
  induction fuel generalizing zz s with
  | zero => exact h
  | succ fuel ih =>
    have hlevel := sound_scanLevel zz h hopen
    unfold scanLevels
    simp only
    split
    · exact hlevel
    next hdone =>
      split
      · exact hlevel
      · exact ih _ hlevel (Bool.eq_false_iff.2 hdone)

/-- "If the next level is no shorter, clear it". -/
theorem length_nextLevel (zz : ZigzagLite Price R) : (nextLevelFromZigzag f zz).pivots.length = 0 ∨
    (nextLevelFromZigzag f zz).pivots.length < zz.pivots.length := by
  unfold nextLevelFromZigzag
  simp only
  split
  next => exact .inl rfl
  next hlen => exact .inr (not_le.1 hlen)

/-- **The levels come to an end**: as many as the base has pivots, or the base alone. -/
theorem levels_scanLevels (hn : 0 < inp.params.numberOfPivots) (fuel : ℕ) (zz : ZigzagLite Price R) (s : Scan) :
    (scanLevels f inp fuel zz s).levels ≤ s.levels + max 1 zz.pivots.length := by
  induction fuel generalizing zz s with
  | zero => exact Nat.le_add_right _ _
  | succ fuel ih =>
    have hlevel := levels_scanLevel inp zz s
    unfold scanLevels
    simp only
    split
    · omega
    · split
      · omega
      next hlen =>
        have hnext := ih (nextLevelFromZigzag f zz) (scanLevel inp zz s)
        rcases length_nextLevel (f := f) zz with hzero | hlt <;> omega

/-- What `analyze_channel_six_from_bars` promises of a scan over `zz` and of its outcomes. -/
structure Promised (bars : BarMap) (params : SixPivotScanParams) (allowed : Option (List ℤ))
    (windowFilter : ChannelSixWindowFilter) (maxMatches basePivots levels : ℕ) (outcomes : List ChannelSixScanOutcome) :
    Prop where
  levels : levels ≤ max 1 basePivots
  bounded : outcomes.length ≤ min (max maxMatches 1) 32
  outside : windowFilter.avoidOverlap → ∀ o ∈ outcomes, StartsApart windowFilter.existingRanges o.pivots
  apart : windowFilter.avoidOverlap → outcomes.Pairwise fun a b => StartsApart [barRange a.pivots] b.pivots
  passed : ∀ o ∈ outcomes, Passed bars params allowed windowFilter.allowedLastPivotDirections o.pivots o.scan

/-- **The scan ends, and keeps to its filters.** -/
theorem analyze_promised (f : Ratios Price R) (bars : BarMap) (zigzagLength maxPivots zigzagOffset : ℕ)
    (params : SixPivotScanParams) (pivotTailSkipMax maxZigzagLevels : ℕ) (allowed : Option (List ℤ))
    (windowFilter : ChannelSixWindowFilter) (maxMatches : ℕ) (hn : 5 ≤ params.numberOfPivots) :
    Promised bars params allowed windowFilter maxMatches
      (zigzagFromOhlcBars f bars zigzagLength maxPivots zigzagOffset).pivots.length
      (scanFromBars f bars zigzagLength maxPivots zigzagOffset params pivotTailSkipMax maxZigzagLevels allowed
        windowFilter maxMatches).levels
      (analyzeChannelSixFromBars f bars zigzagLength maxPivots zigzagOffset params pivotTailSkipMax maxZigzagLevels
        allowed windowFilter maxMatches).outcomes := by
  have hlevels : (scanFromBars f bars zigzagLength maxPivots zigzagOffset params pivotTailSkipMax maxZigzagLevels allowed
      windowFilter maxMatches).levels ≤
        max 1 (zigzagFromOhlcBars f bars zigzagLength maxPivots zigzagOffset).pivots.length := by
    refine (levels_scanLevels (f := f) ?_ _ _ _).trans (Nat.zero_add _).le
    exact (by omega : 0 < params.numberOfPivots)
  rw [analyzeChannelSixFromBars]
  split
  · exact ⟨hlevels, Nat.zero_le _, fun _ o ho => absurd ho List.not_mem_nil, fun _ => List.Pairwise.nil,
      fun o ho => absurd ho List.not_mem_nil⟩
  · have hsound := sound_scanLevels (f := f) (zigzagFromOhlcBars f bars zigzagLength maxPivots zigzagOffset)
      (maxLevels maxZigzagLevels)
      (sound_start ⟨bars, params, allowed, windowFilter, pivotTailSkipMax, min (max maxMatches 1) 32,
        (zigzagFromOhlcBars f bars zigzagLength maxPivots zigzagOffset).pivots.length⟩
        windowFilter.existingRanges (reject .inspectLower) rfl (by simp)) rfl
    exact ⟨hlevels, hsound.bounded, hsound.outside, hsound.apart, hsound.passed⟩

/-- The ratios of a pivot, not rounded. -/
def plainRatios : Ratios Price ℚ where
  zero := 0
  prices a b c d := |a.finite - b.finite| / |c.finite - d.finite|
  bars m n := m / n

/-- Highs at 110 and lows at 90 in turn, five bars apart. -/
def channelWave : BarMap :=
  denseBars (fun b => dojiAt 100 (if b % 10 = 0 then 110 else 101) (if b % 10 = 5 then 90 else 99)) 66

/-- A match was found before on the bars 35 to 45. -/
def foundBefore : ChannelSixWindowFilter := ⟨true, [(35, 45)], none, none⟩

/-- The window from bar 40 on starts inside that range, the two before it do not. -/
theorem analyze_promised_channelWave :
    (analyzeChannelSixFromBars plainRatios channelWave 4 20 0 .default 12 0 none foundBefore 2).outcomes.map
        (fun o => (o.pivots.map (·.bar), o.scan.patternTypeId)) =
      [([30, 35, 40, 45, 50], 3), ([20, 25, 30, 35, 40], 3)] ∧
    Promised channelWave .default none foundBefore 2
      (zigzagFromOhlcBars plainRatios channelWave 4 20 0).pivots.length
      (scanFromBars plainRatios channelWave 4 20 0 .default 12 0 none foundBefore 2).levels
      (analyzeChannelSixFromBars plainRatios channelWave 4 20 0 .default 12 0 none foundBefore 2).outcomes :=
  ⟨by decide +kernel, analyze_promised plainRatios channelWave 4 20 0 .default 12 0 none foundBefore 2 (by decide)⟩

def noFilter : ChannelSixWindowFilter := ⟨true, [], none, none⟩

def oneBar : BarMap := ⟨[(0, ⟨100, 101, 99, 100⟩)], List.pairwise_singleton _ _⟩

/-- The base zigzag is looked at even where it has no pivot, and with windows of no pivot nothing but the bound ends the
loop. -/
theorem levels_beyond_pivots : (zigzagFromOhlcBars plainRatios oneBar 5 10 0).pivots.length = 0 ∧
    (scanFromBars plainRatios oneBar 5 10 0 .default 12 0 none noFilter 1).levels = 1 ∧
    (scanFromBars plainRatios oneBar 5 10 0 { SixPivotScanParams.default with numberOfPivots := 0 } 12 3 none noFilter
      1).levels = 4 := by
  decide +kernel

end Qtss.ChartPatterns
