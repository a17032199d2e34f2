import Qtss.ChartPatterns.BestLine
/-
# The port and the original

"Pine `find` → `resolve`". `scan.rs` looks at a line on the bars of its own pivots; the original looks at it on all the
bars of the pattern. `find.rs` takes the first pivot for a high; the original compares prices. And an `f64` has the sign
1 at 0.0, where `math.sign` is 0, so lines that meet on the last bar still make a pattern here.
-/

namespace Qtss.ChartPatterns

variable {bars : BarMap} {ohlc : ℤ → OhlcBar} {first last : ℤ}

/-! ## The bar ratio, the type -/

theorem checkBarRatio_pine {x y z : ℤ} {enabled : Bool} {limit : ℚ} (hxy : x < y) :
    Pine.checkBarRatio x y z enabled limit = (checkBarRatio x y z enabled limit && (!enabled || limit ≠ 0 : Bool)) := by
  have hden : (y : ℚ) - x ≠ 0 := sub_ne_zero.2 (by exact_mod_cast hxy.ne')
  cases enabled with
  | false => rfl
  | true =>
    by_cases hlimit : limit = 0
    · simp [Pine.checkBarRatio, Pine.quo, hlimit]
    · simp [Pine.checkBarRatio, Pine.quo, hlimit, hden, checkBarRatio, inRange, oneOver]

section resolve
variable {t1p1 t1p2 t2p1 t2p2 flatRatio : ℚ} {barDiff : ℤ}

theorem patternType_invalid (isChannel isExpanding isContracting : Bool) (u l : ℤ) :
    patternType true isChannel isExpanding isContracting u l = 0 := rfl

/-- A line pair with no end to its channel is as wide at the end as at the start. -/
theorem isChannel_eq {sd ed m bd : ℚ} (flat : Bool) (hbd : 0 < bd) :
    (((Pine.quo |sd - ed| bd).bind (Pine.quo m)).any (· > 2 * bd) || (!decide (ed > sd) && !decide (ed < sd)) || flat) =
      (decide (|sd - ed| / bd = 0 ∨ m / (|sd - ed| / bd) > 2 * bd) || (!decide (ed > sd) && !decide (ed < sd)) || flat) := by
  by_cases heq : sd = ed
  · simp [heq]
  · have hne : |sd - ed| / bd ≠ 0 := div_ne_zero (abs_ne_zero.2 (sub_ne_zero.2 heq)) hbd.ne'
    have hquo : Pine.quo |sd - ed| bd = some (|sd - ed| / bd) := if_neg hbd.ne'
    have hquo' : Pine.quo m (|sd - ed| / bd) = some (m / (|sd - ed| / bd)) := if_neg hne
    simp only [hquo, Option.bind_some, hquo', Option.any_some, hne, false_or]

/-- The sign of an `f64` and `math.sign` differ at 0 only. -/
theorem invalid_eq {x y : ℚ} (hx : x ≠ 0) (hy : x ≤ 0 ∨ y ≠ 0) :
    (SignType.sign x ≠ SignType.sign y) ↔ (signum x ≠ signum y) := by
  unfold signum
  rcases lt_or_gt_of_ne hx with hneg | hpos
  · rcases lt_trichotomy y 0 with hy' | rfl | hy'
    · simp [sign_neg, hneg, hy']
    · simp [sign_neg, hneg]
    · simp [sign_neg, hneg, sign_pos hy', hy'.le]
  · have hy := hy.resolve_left (not_le.2 hpos)
    rcases lt_or_gt_of_ne hy with hy' | hy'
    · simp [sign_neg, sign_pos hpos, hpos.le, hy']
    · simp [sign_pos hpos, sign_pos hy', not_lt.2 hpos.le, not_lt.2 hy'.le]

theorem resolve_of_angles {u l : ℚ} (hbar : 0 < barDiff) (hangles : lineAngles t1p1 t1p2 t2p1 t2p2 = some (u, l))
    (hu : (if t1p1 > t2p1 then Pine.quo (t1p2 - min t2p1 t2p2) (t1p1 - min t2p1 t2p2)
      else Pine.quo (t2p2 - min t1p1 t1p2) (t2p1 - min t1p1 t1p2)) = some u)
    (hl : (if t1p1 > t2p1 then Pine.quo (t2p2 - max t1p1 t1p2) (t2p1 - max t1p1 t1p2)
      else Pine.quo (t1p2 - max t2p1 t2p2) (t1p1 - max t2p1 t2p2)) = some l)
    (hinv : SignType.sign (t1p1 - t2p1) ≠ SignType.sign (t1p2 - t2p2) ↔ signum (t1p1 - t2p1) ≠ signum (t1p2 - t2p2)) :
    Pine.resolvePatternName t1p1 t1p2 t2p1 t2p2 barDiff flatRatio =
      resolvePatternTypeId t1p1 t1p2 t2p1 t2p2 barDiff flatRatio := by
  have hbd : (0 : ℚ) < barDiff := by exact_mod_cast hbar
  rw [Pine.resolvePatternName, resolvePatternTypeId, if_neg hbar.ne', hangles, hu, hl]
  simp only [Option.any_some, decide_eq_true_eq, isChannel_eq _ hbd, hinv]

theorem quo_of_ne {x y : ℚ} (h : y ≠ 0) : Pine.quo x y = some (x / y) := if_neg h

/-- Lines that start at one price make no pattern. -/
theorem resolvePatternName_of_eq (heq : t1p1 = t2p1) (hne : t1p2 ≠ t2p2) :
    Pine.resolvePatternName t1p1 t1p2 t2p1 t2p2 barDiff flatRatio = 0 := by
  have hsign : SignType.sign (t1p1 - t2p1) ≠ SignType.sign (t1p2 - t2p2) := by
    rw [heq, sub_self, sign_zero]
    exact (sign_ne_zero.2 (sub_ne_zero.2 hne)).symm
  rw [Pine.resolvePatternName]
  simp only [decide_eq_true hsign, patternType_invalid, max_self]

theorem resolvePatternTypeId_of_eq (heq : t1p1 = t2p1) :
    resolvePatternTypeId t1p1 t1p2 t2p1 t2p2 barDiff flatRatio = 0 := by
  subst heq
  rw [resolvePatternTypeId]
  split
  · rfl
  cases hangles : lineAngles t1p1 t1p2 t1p1 t2p2 with
  | none => rfl
  | some angles =>
    have hlt : t1p2 < t2p2 := by
      rw [lineAngles, if_neg (lt_irrefl _)] at hangles
      by_contra hle
      rcases le_total t1p1 t1p2 with h | h
      · simp [min_eq_left h] at hangles
      · simp [max_eq_left ((not_lt.1 hle).trans h)] at hangles
    have hsign : signum (t1p1 - t1p1) ≠ signum (t1p2 - t2p2) := by
      simp [signum, hlt]
    simp only [decide_eq_true hsign, patternType_invalid, max_self]

theorem resolvePatternName_eq (hbar : 0 < barDiff)
    (hmeet : t2p1 ≤ t1p1 → t1p2 ≠ t2p2) : Pine.resolvePatternName t1p1 t1p2 t2p1 t2p2 barDiff flatRatio =
      resolvePatternTypeId t1p1 t1p2 t2p1 t2p2 barDiff flatRatio := by
  rcases lt_trichotomy t1p1 t2p1 with hlt | heq | hgt
  · have hden : t2p1 - min t1p1 t1p2 ≠ 0 := (sub_pos.2 ((min_le_left _ _).trans_lt hlt)).ne'
    have hden' : t1p1 - max t2p1 t2p2 ≠ 0 := (sub_neg.2 (hlt.trans_le (le_max_left _ _))).ne
    refine resolve_of_angles hbar ?_ ((if_neg (not_lt.2 hlt.le)).trans (quo_of_ne hden))
      ((if_neg (not_lt.2 hlt.le)).trans (quo_of_ne hden')) (invalid_eq (sub_ne_zero.2 hlt.ne) (.inl (sub_nonpos.2 hlt.le)))
    rw [lineAngles, if_neg (not_lt.2 hlt.le)]
    simp only [if_neg hden, if_neg hden']
  · rw [resolvePatternName_of_eq heq (hmeet heq.ge), resolvePatternTypeId_of_eq heq]
  · have hden : t1p1 - min t2p1 t2p2 ≠ 0 := (sub_pos.2 ((min_le_left _ _).trans_lt hgt)).ne'
    have hden' : t2p1 - max t1p1 t1p2 ≠ 0 := (sub_neg.2 (hgt.trans_le (le_max_left _ _))).ne
    refine resolve_of_angles hbar ?_ ((if_pos hgt).trans (quo_of_ne hden)) ((if_pos hgt).trans (quo_of_ne hden'))
      (invalid_eq (sub_ne_zero.2 hgt.ne') (.inr (sub_ne_zero.2 (hmeet hgt.le))))
    rw [lineAngles, if_pos hgt]
    simp only [if_neg hden, if_neg hden']
end resolve

/-! ## The pattern -/

/-- The points of the second line. -/
def lowerPoints (p1 p3 : PivotTriple) (p5 : Option PivotTriple) : List (ℤ × ℚ) := [p1.at, p3.at] ++ p5.toList.map (·.at)

abbrev upperCandidates (p0 p2 p4 : PivotTriple) : List Candidate := candidates [p0.at, p2.at, p4.at]

abbrev lowerCandidates (p1 p3 : PivotTriple) (p5 : Option PivotTriple) : List Candidate := candidates (lowerPoints p1 p3 p5)

/-- Both sides are seen whole, and the lines picked do not meet on the last bar. -/
structure SeenWhole (p0 p1 p2 p3 p4 : PivotTriple) (p5 : Option PivotTriple) (bars : BarMap) (params : SixPivotScanParams) :
    Prop where
  limit : params.barRatioEnabled → params.barRatioLimit ≠ 0
  upper : SideSeen (upperCandidates p0 p2 p4) bars 1 (p0.bar, p4.bar) (p0.bar, (p5.getD p4).bar)
  lower : SideSeen (lowerCandidates p1 p3 p5) bars (-1) (p1.bar, (p5.getD p3).bar) (p0.bar, (p5.getD p4).bar)
  apart : ∀ u ∈ upperCandidates p0 p2 p4, ∀ l ∈ lowerCandidates p1 p3 p5,
    Picked (upperCandidates p0 p2 p4) bars 1 (p0.bar, p4.bar) u →
      Picked (lowerCandidates p1 p3 p5) bars (-1) (p1.bar, (p5.getD p3).bar) l →
        lineAt l.line p0.bar ≤ lineAt u.line p0.bar → lineAt u.line (p5.getD p4).bar ≠ lineAt l.line (p5.getD p4).bar

/-- The bar ratios reject the pattern; or the first pivot is a high, and a side is broken or both are seen whole. -/
def InParity (pivots : List PivotTriple) (bars : BarMap) (params : SixPivotScanParams) : Prop :=
  match pivots with
  | p0 :: p1 :: p2 :: p3 :: p4 :: rest =>
    (!checkBarRatio p0.bar p2.bar p4.bar params.barRatioEnabled params.barRatioLimit ||
        rest.head?.any fun p5 => !checkBarRatio p1.bar p3.bar p5.bar params.barRatioEnabled params.barRatioLimit) ∨
      p1.price < p0.price ∧ (Hopeless (upperCandidates p0 p2 p4) bars 1 (p0.bar, p4.bar) ∨
        Hopeless (lowerCandidates p1 p3 rest.head?) bars (-1) (p1.bar, (rest.head?.getD p3).bar) ∨
          SeenWhole p0 p1 p2 p3 p4 rest.head? bars params)
  | _ => True

section pattern
variable {p0 p1 p2 p3 p4 : PivotTriple} {p5 : Option PivotTriple} {params : SixPivotScanParams}

theorem endpoints_ne {a b c : ℤ × ℚ} (hab : a.1 < b.1) (hbc : b.1 < c.1) (pick : ℕ) :
    (endpointsFromPickThree pick a b c).1.1 ≠ (endpointsFromPickThree pick a b c).2.1 := by
  unfold endpointsFromPickThree
  split_ifs
  · exact (hab.trans hbc).ne
  · exact hab.ne
  · exact hbc.ne

theorem lowerEndpoints_ne (hsorted : (lowerPoints p1 p3 p5).Pairwise fun p q => p.1 < q.1) (pick : ℕ) :
    (lowerEndpoints pick p1 p3 p5).1.1 ≠ (lowerEndpoints pick p1 p3 p5).2.1 := by
  cases p5 with
  | none =>
    have h13 : p1.bar < p3.bar := by simpa [lowerPoints] using hsorted
    exact h13.ne
  | some p5 =>
    have h135 : (p1.bar < p3.bar ∧ p1.bar < p5.bar) ∧ p3.bar < p5.bar := by simpa [lowerPoints] using hsorted
    exact endpoints_ne (a := p1.at) (b := p3.at) h135.1.1 h135.2 pick

/-- The type, for the lines picked. -/
theorem resolveLines_eq {upper lower : Bool × ℕ × ℕ} {u l : (ℤ × ℚ) × (ℤ × ℚ)} {flatRatio : ℚ} (hu : u.1.1 ≠ u.2.1)
    (hl : l.1.1 ≠ l.2.1) (hfl : first ≤ last) :
    (resolveLines upper u lower l first last flatRatio).map (·.patternTypeId) =
      if upper.1 && lower.1 then some (resolvePatternTypeId (lineAt u first) (lineAt u last) (lineAt l first)
        (lineAt l last) (last - first) flatRatio)
      else none := by
  rw [resolveLines, min_eq_left hfl, max_eq_right hfl]
  simp only [linePriceAtBarIndex_eq hu, linePriceAtBarIndex_eq hl]
  cases upper.1 <;> cases lower.1 <;> rfl

/-- The side whose first pivot is the pattern's. -/
theorem upper_found (hscore : params.errorScoreRatioMax = 1 / 5) (hdir : params.upperDirection = 1)
    (h02 : p0.bar < p2.bar) (h24 : p2.bar < p4.bar) (hlast : p4.bar ≤ last)
    (hdense : ∀ i, p0.bar ≤ i → i ≤ last → bars.get i = some (ohlc i)) :
    ∃ ok n, Pine.inspect [p0.at, p2.at, p4.at] p0.bar last 1 ohlc = some (ok,
        ⟨(endpointsFromPickThree n p0.at p2.at p4.at).1, (endpointsFromPickThree n p0.at p2.at p4.at).2⟩) ∧
      SideFound (upperCandidates p0 p2 p4) bars 1 (p0.bar, p4.bar) (p0.bar, last) (inspectUpper p0 p2 p4 bars params)
        (endpointsFromPickThree · p0.at p2.at p4.at) ok n := by
  refine ⟨_, _, inspect_three_pine (a := p0.at) (b := p2.at) (c := p4.at) h02 h24 (h02.le.trans (h24.le.trans hlast)) hdense,
    ?_⟩
  rw [inspectUpper, hdir, hscore, inspectPickBestThreePointLine_eq (a := p0.at) (b := p2.at) (c := p4.at) h02 h24]
  exact sideFound_three (a := p0.at) (b := p2.at) (c := p4.at) h02 h24 (.inl rfl) le_rfl hlast

theorem lower_found (hscore : params.errorScoreRatioMax = 1 / 5) (hdir : params.lowerDirection = -1)
    (hsorted : (lowerPoints p1 p3 p5).Pairwise fun p q => p.1 < q.1) (hfirst : first ≤ p1.bar)
    (hlast : (p5.getD p3).bar ≤ last) (hdense : ∀ i, first ≤ i → i ≤ last → bars.get i = some (ohlc i)) :
    ∃ ok n, Pine.inspect (lowerPoints p1 p3 p5) first last (-1) ohlc = some (ok,
        ⟨(lowerEndpoints n p1 p3 p5).1, (lowerEndpoints n p1 p3 p5).2⟩) ∧
      SideFound (lowerCandidates p1 p3 p5) bars (-1) (p1.bar, (p5.getD p3).bar) (first, last)
        (inspectLower p1 p3 p5 bars params) (lowerEndpoints · p1 p3 p5) ok n := by
  cases p5 with
  | none =>
    have h13 : p1.bar < p3.bar := by simpa [lowerPoints] using hsorted
    refine ⟨_, 1, inspect_two_pine (a := p1.at) (b := p3.at) h13 (hfirst.trans (h13.le.trans hlast)) hdense, ?_⟩
    simp only [inspectLower, hdir, hscore, inspectTwoPointLine_eq (a := p1.at) (b := p3.at) h13]
    exact sideFound_two (a := p1.at) (b := p3.at) h13 (.inr rfl) hfirst hlast
  | some p5 =>
    have h135 : (p1.bar < p3.bar ∧ p1.bar < p5.bar) ∧ p3.bar < p5.bar := by simpa [lowerPoints] using hsorted
    obtain ⟨⟨h13, h15⟩, h35⟩ := h135
    refine ⟨_, _, inspect_three_pine (a := p1.at) (b := p3.at) (c := p5.at) h13 h35 (hfirst.trans (h15.le.trans hlast))
      hdense, ?_⟩
    simp only [inspectLower, hdir, hscore, inspectPickBestThreePointLine_eq (a := p1.at) (b := p3.at) (c := p5.at) h13 h35]
    exact sideFound_three (a := p1.at) (b := p3.at) (c := p5.at) h13 h35 (.inr rfl) hfirst hlast

/-- The bar ratios of the port. -/
def ratiosOk (p0 p1 p2 p3 p4 : PivotTriple) (p5 : Option PivotTriple) (params : SixPivotScanParams) : Bool :=
  checkBarRatio p0.bar p2.bar p4.bar params.barRatioEnabled params.barRatioLimit &&
    p5.all fun p5 => checkBarRatio p1.bar p3.bar p5.bar params.barRatioEnabled params.barRatioLimit

variable (p0 p1 p2 p3 p4 p5 params) in
/-- `scan.rs` asks for the ratio that fails. -/
theorem not_ratiosOk : (!ratiosOk p0 p1 p2 p3 p4 p5 params) =
    (!checkBarRatio p0.bar p2.bar p4.bar params.barRatioEnabled params.barRatioLimit ||
      p5.any fun p5 => !checkBarRatio p1.bar p3.bar p5.bar params.barRatioEnabled params.barRatioLimit) := by
  cases p5 <;> simp [ratiosOk]

variable (p4 p5 params) in
theorem ratios_pine (h02 : p0.bar < p2.bar) (h13 : p1.bar < p3.bar) :
    (p5.all (fun p5 => Pine.checkBarRatio p1.bar p3.bar p5.bar params.barRatioEnabled params.barRatioLimit) &&
      Pine.checkBarRatio p0.bar p2.bar p4.bar params.barRatioEnabled params.barRatioLimit) =
        (ratiosOk p0 p1 p2 p3 p4 p5 params && (!params.barRatioEnabled || params.barRatioLimit ≠ 0 : Bool)) := by
  rw [ratiosOk, checkBarRatio_pine h02]
  cases p5 with
  | none => simp
  | some p5 =>
    simp only [Option.all_some, checkBarRatio_pine h13]
    generalize checkBarRatio p0.bar p2.bar p4.bar _ _ = r
    generalize checkBarRatio p1.bar p3.bar p5.bar _ _ = r'
    cases r <;> cases r' <;> simp

theorem scan_eq {rest : List PivotTriple} (hn : params.numberOfPivots = 5 ∨ params.numberOfPivots = 6)
    (hlen : (p0 :: p1 :: p2 :: p3 :: p4 :: rest).length = params.numberOfPivots)
    (halt : alternates (p0 :: p1 :: p2 :: p3 :: p4 :: rest)) :
    scanSixAlternatingPivots (p0 :: p1 :: p2 :: p3 :: p4 :: rest) bars params =
      if ratiosOk p0 p1 p2 p3 p4 rest.head? params then
        resolveLines (inspectUpper p0 p2 p4 bars params)
          (endpointsFromPickThree (inspectUpper p0 p2 p4 bars params).2.1 p0.at p2.at p4.at)
          (inspectLower p1 p3 rest.head? bars params)
          (lowerEndpoints (inspectLower p1 p3 rest.head? bars params).2.1 p1 p3 rest.head?)
          p0.bar (rest.head?.getD p4).bar params.flatRatio
      else none := by
  rw [scanSixAlternatingPivots, if_neg (by simp [hn, hlen]), halt, ratiosOk]
  simp only [Bool.not_true, Bool.false_eq_true, if_false]
  generalize checkBarRatio p0.bar p2.bar p4.bar _ _ = r
  rcases rest.head? with _ | p5
  · cases r <;> simp
  · simp only [Option.any_some, Option.all_some]
    rcases Bool.eq_false_or_eq_true (checkBarRatio p1.bar p3.bar p5.bar params.barRatioEnabled params.barRatioLimit) with
      h | h <;> cases r <;> simp [h]

theorem ite_not_bool {α : Type*} (v : Bool) (x : Option α) : (if !v then none else x) = if v then x else none := by
  cases v <;> rfl

theorem head?_of_length {rest : List PivotTriple} (hn : params.numberOfPivots = 5 ∨ params.numberOfPivots = 6)
    (hlen : (p0 :: p1 :: p2 :: p3 :: p4 :: rest).length = params.numberOfPivots) :
    (if params.numberOfPivots = 6 then rest.head? else none) = rest.head? := by
  split
  · rfl
  next hsix =>
    have hrest : rest = [] := by
      rw [List.eq_nil_iff_length_eq_zero]
      simp only [List.length_cons] at hlen
      omega
    rw [hrest, List.head?_nil]

theorem find_eq {rest : List PivotTriple} (hn : params.numberOfPivots = 5 ∨ params.numberOfPivots = 6)
    (hlen : (p0 :: p1 :: p2 :: p3 :: p4 :: rest).length = params.numberOfPivots)
    {u l : Pine.Line} {upper lower : Bool} (hhigh : p1.price < p0.price)
    (hu : Pine.inspect [p0.at, p2.at, p4.at] p0.bar (rest.head?.getD p4).bar 1 ohlc = some (upper, u))
    (hl : Pine.inspect (lowerPoints p1 p3 rest.head?) p0.bar (rest.head?.getD p4).bar (-1) ohlc = some (lower, l))
    (hu' : u.p1.1 ≠ u.p2.1) (hl' : l.p1.1 ≠ l.p2.1) :
    Pine.find (p0 :: p1 :: p2 :: p3 :: p4 :: rest) params ohlc =
      if rest.head?.all (fun p5 => Pine.checkBarRatio p1.bar p3.bar p5.bar params.barRatioEnabled params.barRatioLimit) &&
          Pine.checkBarRatio p0.bar p2.bar p4.bar params.barRatioEnabled params.barRatioLimit then
        if upper && lower then
          some (Pine.resolvePatternName (lineAt (u.p1, u.p2) p0.bar) (lineAt (u.p1, u.p2) (rest.head?.getD p4).bar)
            (lineAt (l.p1, l.p2) p0.bar) (lineAt (l.p1, l.p2) (rest.head?.getD p4).bar)
            ((rest.head?.getD p4).bar - p0.bar) params.flatRatio)
        else none
      else none := by
  rw [Pine.find]
  simp only [head?_of_length hn hlen, if_pos hhigh, gt_iff_lt]
  rw [lowerPoints] at hl
  simp only [hu, hl, getPrice_eq hu', getPrice_eq hl', Option.bind_eq_bind, Option.bind_some]
  exact ite_not_bool _ _

/-- A rejected bar ratio is rejected by both. -/
theorem find_of_not_ratios {rest : List PivotTriple} (hn : params.numberOfPivots = 5 ∨ params.numberOfPivots = 6)
    (hlen : (p0 :: p1 :: p2 :: p3 :: p4 :: rest).length = params.numberOfPivots) (h02 : p0.bar < p2.bar)
    (h13 : p1.bar < p3.bar) (hratio : ratiosOk p0 p1 p2 p3 p4 rest.head? params = false) :
    Pine.find (p0 :: p1 :: p2 :: p3 :: p4 :: rest) params ohlc = none := by
  have hratios := ratios_pine p4 rest.head? params h02 h13
  rw [hratio, Bool.false_and] at hratios
  rw [Pine.find]
  simp only [head?_of_length hn hlen, hratios, Bool.not_false, if_true]

theorem scan_of_inParity {rest : List PivotTriple} (hn : params.numberOfPivots = 5 ∨ params.numberOfPivots = 6)
    (hlen : (p0 :: p1 :: p2 :: p3 :: p4 :: rest).length = params.numberOfPivots)
    (halt : alternates (p0 :: p1 :: p2 :: p3 :: p4 :: rest)) (hupper : params.upperDirection = 1)
    (hlower : params.lowerDirection = -1) (hscore : params.errorScoreRatioMax = 1 / 5)
    (hsorted : (p0 :: p1 :: p2 :: p3 :: p4 :: rest).Pairwise fun p q => p.bar < q.bar)
    (hdense : ∀ i, p0.bar ≤ i → i ≤ (rest.head?.getD p4).bar → bars.get i = some (ohlc i)) (hhigh : p1.price < p0.price)
    (h : Hopeless (upperCandidates p0 p2 p4) bars 1 (p0.bar, p4.bar) ∨
      Hopeless (lowerCandidates p1 p3 rest.head?) bars (-1) (p1.bar, (rest.head?.getD p3).bar) ∨
        SeenWhole p0 p1 p2 p3 p4 rest.head? bars params) :
    (scanSixAlternatingPivots (p0 :: p1 :: p2 :: p3 :: p4 :: rest) bars params).map (·.patternTypeId) =
      Pine.find (p0 :: p1 :: p2 :: p3 :: p4 :: rest) params ohlc := by
  obtain ⟨⟨h01, h02⟩, h12, h13, h23, h34, h4⟩ : (p0.bar < p1.bar ∧ p0.bar < p2.bar) ∧ p1.bar < p2.bar ∧
      p1.bar < p3.bar ∧ p2.bar < p3.bar ∧ p3.bar < p4.bar ∧ ∀ p5 ∈ rest, p4.bar < p5.bar := by
    simp only [List.pairwise_cons, List.mem_cons, forall_eq_or_imp] at hsorted
    tauto
  have hlast : p4.bar ≤ (rest.head?.getD p4).bar ∧ (rest.head?.getD p3).bar ≤ (rest.head?.getD p4).bar ∧
      (lowerPoints p1 p3 rest.head?).Pairwise fun p q => p.1 < q.1 := by
    rcases rest with _ | ⟨p5, rest⟩
    · exact ⟨le_rfl, h34.le, by simpa [lowerPoints] using h13⟩
    · have h45 := h4 p5 List.mem_cons_self
      refine ⟨h45.le, le_rfl, ?_⟩
      simp only [lowerPoints, List.head?_cons, Option.toList_some, List.map_singleton, List.cons_append, List.nil_append,
        List.pairwise_cons, List.mem_cons, List.not_mem_nil, or_false, forall_eq_or_imp, forall_eq]
      exact ⟨⟨h13, h13.trans (h34.trans h45)⟩, h34.trans h45, by simp⟩
  obtain ⟨h4last, h3last, hlowerSorted⟩ := hlast
  obtain ⟨okU, nU, hu, hfoundU⟩ := upper_found hscore hupper h02 (h23.trans h34) h4last hdense
  obtain ⟨okL, nL, hl, hfoundL⟩ := lower_found hscore hlower hlowerSorted h01.le h3last hdense
  have hneU := endpoints_ne (a := p0.at) (b := p2.at) (c := p4.at) h02 (h23.trans h34)
  have hneL := lowerEndpoints_ne hlowerSorted
  rw [scan_eq hn hlen halt, find_eq hn hlen hhigh hu hl (hneU _) (hneL _), ratios_pine _ _ _ h02 h13]
  rcases h with hbroken | hbroken | hseen
  · -- no upper line in either
    obtain ⟨hok, hmine⟩ := hfoundU.hopeless hbroken
    simp [hok, hmine, resolveLines]
  · obtain ⟨hok, hmine⟩ := hfoundL.hopeless hbroken
    simp [hok, hmine, resolveLines]
  · obtain ⟨hokU, hnU⟩ := hfoundU.seen hseen.upper
    obtain ⟨hokL, hnL⟩ := hfoundL.seen hseen.lower
    have hlimit : (!params.barRatioEnabled || (params.barRatioLimit ≠ 0 : Bool)) = true := by
      simpa [imp_iff_not_or] using hseen.limit
    rw [hlimit, Bool.and_true, hokU, hnU, hokL, hnL]
    split
    · rw [resolveLines_eq (hneU _) (hneL _) (by omega)]
      split
      next hboth =>
        obtain ⟨hvalidU, hvalidL⟩ := Bool.and_eq_true_iff.1 hboth
        obtain ⟨u, humem, hupicked, huline⟩ := hfoundU.picked hvalidU
        obtain ⟨l, hlmem, hlpicked, hlline⟩ := hfoundL.picked hvalidL
        have hapart := hseen.apart u humem l hlmem hupicked hlpicked
        rw [huline, hlline] at hapart
        rw [resolvePatternName_eq (by omega) hapart]
      next => rfl
    · rfl

end pattern

/-- **Parity.** Where the bar ratios reject the pattern, or it is seen whole, the port finds what the original finds. -/
theorem scan_parity (pivots : List PivotTriple) (bars : BarMap) (params : SixPivotScanParams) (ohlc : ℤ → OhlcBar)
    (hn : params.numberOfPivots = 5 ∨ params.numberOfPivots = 6) (hlen : pivots.length = params.numberOfPivots)
    (halt : alternates pivots) (hsorted : pivots.Pairwise fun p q => p.bar < q.bar)
    (hdense : ∀ p ∈ pivots, ∀ q ∈ pivots, ∀ b, p.bar ≤ b → b ≤ q.bar → bars.get b = some (ohlc b))
    (hupper : params.upperDirection = 1) (hlower : params.lowerDirection = -1)
    (hscore : params.errorScoreRatioMax = 1 / 5) (h : InParity pivots bars params) (t : ℤ) :
    (∃ r, scanSixAlternatingPivots pivots bars params = some r ∧ r.patternTypeId = t) ↔
      Pine.find pivots params ohlc = some t := by
  obtain ⟨p0, p1, p2, p3, p4, rest, rfl⟩ : ∃ p0 p1 p2 p3 p4 rest, pivots = p0 :: p1 :: p2 :: p3 :: p4 :: rest := by
    rcases pivots with _ | ⟨p0, _ | ⟨p1, _ | ⟨p2, _ | ⟨p3, _ | ⟨p4, rest⟩⟩⟩⟩⟩
    case cons.cons.cons.cons.cons => exact ⟨p0, p1, p2, p3, p4, rest, rfl⟩
    all_goals
      simp only [List.length_cons, List.length_nil] at hlen
      omega
  have hmap : (scanSixAlternatingPivots (p0 :: p1 :: p2 :: p3 :: p4 :: rest) bars params).map (·.patternTypeId) =
      Pine.find (p0 :: p1 :: p2 :: p3 :: p4 :: rest) params ohlc := by
    by_cases hratio : ratiosOk p0 p1 p2 p3 p4 rest.head? params
    · obtain ⟨hhigh, h⟩ := h.resolve_left (by rw [← not_ratiosOk, hratio]; exact Bool.false_ne_true)
      refine scan_of_inParity hn hlen halt hupper hlower hscore hsorted ?_ hhigh h
      · intro b hb hb'
        rcases hrest : rest.head? with _ | p5
        · exact hdense p0 (by simp) p4 (by simp) b hb (by simpa [hrest] using hb')
        · exact hdense p0 (by simp) p5 (by simp [List.mem_of_head? hrest]) b hb (by simpa [hrest] using hb')
    · rw [scan_eq hn hlen halt, if_neg hratio, find_of_not_ratios hn hlen ?_ ?_ (Bool.eq_false_iff.2 hratio),
        Option.map_none]
      all_goals
        simp only [List.pairwise_cons, List.mem_cons, forall_eq_or_imp] at hsorted
        tauto
  rw [← hmap, Option.map_eq_some_iff]

/-- Highs at 110 on bars 0, 10 and 20, lows at 90 on bars 5 and 15. -/
def channelPivots : List PivotTriple := [⟨0, 110, 1⟩, ⟨5, 90, -1⟩, ⟨10, 110, 1⟩, ⟨15, 90, -1⟩, ⟨20, 110, 1⟩]

def channelBars (b : ℤ) : OhlcBar :=
  dojiAt 100 (if b ∈ [0, 10, 20] then 110 else 101) (if b ∈ [5, 15] then 90 else 99)

theorem scan_parity_channel :
    (∃ r, scanSixAlternatingPivots channelPivots (denseBars channelBars 21) .default = some r ∧ r.patternTypeId = 3) ↔
      Pine.find channelPivots .default channelBars = some 3 := by
  have hget : ∀ b, 0 ≤ b → b ≤ 20 → (denseBars channelBars 21).get b = some (channelBars b) := by decide +kernel
  have hbars : ∀ p ∈ channelPivots, 0 ≤ p.bar ∧ p.bar ≤ 20 := by decide
  have hmeet : ∀ u ∈ candidates [(0, 110), (10, 110), (20, 110)], ∀ l ∈ candidates [(5, 90), (15, 90)],
      lineAt l.line 0 ≤ lineAt u.line 0 → lineAt u.line 20 ≠ lineAt l.line 20 := by decide +kernel
  refine scan_parity channelPivots (denseBars channelBars 21) .default channelBars (by decide) (by decide) (by decide)
    (by decide) (fun p hp q hq b hb hb' => hget b ((hbars p hp).1.trans hb) (hb'.trans (hbars q hq).2)) rfl rfl rfl
    (.inr ⟨by decide, .inr (.inr ⟨by decide +kernel, .inl ?_, .inl ?_, fun u hu l hl _ _ => hmeet u hu l hl⟩)⟩) 3
  · exact fun k hk => ⟨by revert k; decide +kernel, by revert k; decide +kernel⟩
  · exact fun k hk => ⟨by revert k; decide +kernel, by revert k; decide +kernel⟩

/-- A bar that closes below the lower line, before its first pivot. -/
def dipBars (b : ℤ) : OhlcBar := if b = 2 then dojiAt 80 81 79 else channelBars b

/-- The channel upside down: its first pivot is a low. -/
def lowFirstPivots : List PivotTriple := [⟨0, 90, -1⟩, ⟨5, 110, 1⟩, ⟨10, 90, -1⟩, ⟨15, 110, 1⟩, ⟨20, 90, -1⟩]

def lowFirstBars (b : ℤ) : OhlcBar :=
  dojiAt 100 (if b ∈ [5, 15] then 110 else 101) (if b ∈ [0, 10, 20] then 90 else 99)

/-- A rising line that meets the flat one on bar 20. -/
def apexPivots : List PivotTriple := [⟨0, 120, 1⟩, ⟨5, 90, -1⟩, ⟨10, 120, 1⟩, ⟨15, 110, -1⟩, ⟨20, 120, 1⟩]

def apexBars (b : ℤ) : OhlcBar :=
  dojiAt (100 + b) (if b ∈ [0, 10, 20] then 120 else 100 + b) (if b ∈ [5, 15] then 80 + 2 * b else 100 + b)

theorem port_differs :
    ((scanSixAlternatingPivots channelPivots (denseBars dipBars 21) .default).map (·.patternTypeId) = some 3 ∧
        Pine.find channelPivots .default dipBars = none) ∧
      ((scanSixAlternatingPivots lowFirstPivots (denseBars lowFirstBars 21) .default).map (·.patternTypeId) = none ∧
        Pine.find lowFirstPivots .default lowFirstBars = some 3) ∧
      ((scanSixAlternatingPivots apexPivots (denseBars apexBars 21) .default).map (·.patternTypeId) = some 13 ∧
        Pine.find apexPivots .default apexBars = some 0) := by
  decide +kernel

end Qtss.ChartPatterns
