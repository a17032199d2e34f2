import Mathlib.Data.Rat.Floor
import Mathlib.Data.Int.Range
import Mathlib.Algebra.Order.Field.Rat
import Mathlib.Order.WithBot
import Qtss.Lib.BreakLoop
/-
# Scanning one window of pivots (`qtss-chart-patterns/src/{scan,resolve,find}.rs`)

| here | there |
| --- | --- |
| `linePriceAtBarIndex` | lib.rs:90 |
| `checkBarRatio`    | scan.rs:31; `oneOver` is the `1.0 / bar_ratio_limit` of an `f64` |
| `trendLineInspect` | scan.rs:67; `inspectBar` is the body of its loop |
| `inspectPickBestThreePointLine`, `inspectTwoPointLine` | scan.rs:116, :149 |
| `resolvePatternTypeId` | resolve.rs:17; `signum` is that of an `f64`, 1 at 0.0 |
| `checkSizePivots`  | find.rs:109 |
| `scanSixAlternatingPivots` | find.rs:213; `resolveLines` is its end, from the two inspections on |

An `f64` is read as the rational it is, a guard `abs() < 1e-15` as a test for zero.
-/

namespace Qtss.ChartPatterns

structure OhlcBar where
  openPrice : ℚ
  high : ℚ
  low : ℚ
  close : ℚ
deriving DecidableEq

/-- `BTreeMap<i64, OhlcBar>`, in the order of the keys. -/
structure BarMap where
  entries : List (ℤ × OhlcBar)
  sorted : entries.Pairwise fun a b => a.1 < b.1

def BarMap.get (bars : BarMap) (b : ℤ) : Option OhlcBar := (bars.entries.find? fun e => e.1 = b).map (·.2)

/-- A bar for each of `0 .. n`. -/
def denseBars (ohlc : ℤ → OhlcBar) (n : ℕ) : BarMap where
  entries := (List.range n).map fun i : ℕ => ((i : ℤ), ohlc i)
  sorted := List.pairwise_map.2 (List.pairwise_lt_range.imp fun h => Int.ofNat_lt.2 h)

/-- A bar without a body. -/
def dojiAt (price high low : ℚ) : OhlcBar := ⟨price, high, low, price⟩

structure PivotTriple where
  bar : ℤ
  price : ℚ
  dir : ℤ
deriving DecidableEq

/-- Where a line runs through. -/
abbrev PivotTriple.at (p : PivotTriple) : ℤ × ℚ := (p.bar, p.price)

def linePriceAtBarIndex (p1 p2 : ℤ × ℚ) (bar : ℤ) : Option ℚ :=
  let d := p2.1 - p1.1
  if d = 0 then none
  else
    let step := (p2.2 - p1.2) / d
    some (p1.2 + (bar - p1.1 : ℤ) * step)

/-! ## scan.rs -/

def inRange (value min : ℚ) (max : WithTop ℚ) : Bool := min ≤ value ∧ (value : WithTop ℚ) ≤ max

def oneOver (limit : ℚ) : WithTop ℚ := if limit = 0 then ⊤ else ↑(1 / limit)

def checkBarRatio (p1Bar p2Bar p3Bar : ℤ) (enabled : Bool) (barRatioLimit : ℚ) : Bool :=
  if !enabled then true
  else
    let den : ℚ := |p2Bar - p1Bar|
    if den = 0 then false
    else inRange (|p3Bar - p2Bar| / den) barRatioLimit (oneOver barRatioLimit)

/-- The line at one bar: `none` where the loop breaks, else what the bar adds to the score. -/
def inspectBar (p1 p2 : ℤ × ℚ) (otherBar : ℤ) (direction : ℚ) (bars : BarMap) (b : ℤ) : Option ℕ :=
  match bars.get b with
  | none => some 0
  | some ohlc =>
    match linePriceAtBarIndex p1 p2 b with
    | none => none
    | some linePrice =>
      let barPrice := if direction > 0 then ohlc.high else ohlc.low
      let barOut := if direction > 0 then ohlc.low else ohlc.high
      if linePrice * direction < min (ohlc.openPrice * direction) (ohlc.close * direction) then none
      else if linePrice * direction ≥ barOut * direction ∧ linePrice * direction ≤ barPrice * direction then some 1
      else if b = otherBar then none
      else some 0

/-- Whether the line holds, and its score. -/
def trendLineInspect (p1 p2 : ℤ × ℚ) (startingBar endingBar otherBar : ℤ) (direction : ℚ) (bars : BarMap)
    (scoreRatioMax : ℚ) : Bool × ℕ :=
  if startingBar > endingBar then (false, 0)
  else
    let (loopValid, score, total) :=
      BreakLoop.run (inspectBar p1 p2 otherBar direction bars) (Int.range startingBar (endingBar + 1)) (0, 0)
    (loopValid && total > 0 && ((score : ℚ) / total < scoreRatioMax : Bool), score)

/-- The best of three segments: 1 from end to end, 2 the first, 3 the second. -/
def pickBest (r1 r2 r3 : Bool × ℕ) : Bool × ℕ × ℕ :=
  let (ok1, s1) := r1
  let (ok2, s2) := r2
  let (ok3, s3) := r3
  let pick := if ok1 && s1 > max s2 s3 then 1 else if ok2 && s2 > max s1 s3 then 2 else 3
  (if pick = 1 then ok1 else if pick = 2 then ok2 else ok3, pick, if pick = 1 then s1 else if pick = 2 then s2 else s3)

def inspectPickBestThreePointLine (p0 p1 p2 : ℤ × ℚ) (direction : ℚ) (bars : BarMap) (scoreRatioMax : ℚ) :
    Bool × ℕ × ℕ :=
  let firstIndex := min (min p0.1 p1.1) p2.1
  let lastIndex := max (max p0.1 p1.1) p2.1
  pickBest (trendLineInspect p0 p2 firstIndex lastIndex p1.1 direction bars scoreRatioMax)
    (trendLineInspect p0 p1 firstIndex lastIndex p2.1 direction bars scoreRatioMax)
    (trendLineInspect p1 p2 firstIndex lastIndex p0.1 direction bars scoreRatioMax)

def inspectTwoPointLine (pFirst pLast : ℤ × ℚ) (direction : ℚ) (bars : BarMap) (scoreRatioMax : ℚ) : Bool × ℕ :=
  let firstIndex := min pFirst.1 pLast.1
  let lastIndex := max pFirst.1 pLast.1
  trendLineInspect pFirst pLast firstIndex lastIndex pFirst.1 direction bars scoreRatioMax

/-! ## resolve.rs -/

def signum (x : ℚ) : ℤ := if x < 0 then -1 else 1

/-- The type for the directions of the two lines; below 0 where none fits. -/
def patternType (invalid isChannel isExpanding isContracting : Bool) (upperLineDir lowerLineDir : ℤ) : ℤ :=
  if invalid then 0
  else if isChannel then
    if upperLineDir > 0 ∧ lowerLineDir > 0 then 1
    else if upperLineDir < 0 ∧ lowerLineDir < 0 then 2
    else 3
  else if isExpanding then
    if upperLineDir > 0 ∧ lowerLineDir > 0 then 4
    else if upperLineDir < 0 ∧ lowerLineDir < 0 then 5
    else if upperLineDir > 0 ∧ lowerLineDir < 0 then 6
    else if upperLineDir > 0 ∧ lowerLineDir = 0 then 7
    else if upperLineDir = 0 ∧ lowerLineDir < 0 then 8
    else -2
  else if isContracting then
    if upperLineDir > 0 ∧ lowerLineDir > 0 then 9
    else if upperLineDir < 0 ∧ lowerLineDir < 0 then 10
    else if upperLineDir < 0 ∧ lowerLineDir > 0 then 11
    else if lowerLineDir = 0 then
      if upperLineDir < 0 then 12 else 1
    else if upperLineDir = 0 then
      if lowerLineDir > 0 then 13 else 2
    else -3
  else -4

/-- `(upper_angle, lower_angle)`, where neither guard is hit. -/
def lineAngles (t1p1 t1p2 t2p1 t2p2 : ℚ) : Option (ℚ × ℚ) :=
  if t1p1 > t2p1 then
    let den := t1p1 - min t2p1 t2p2
    let den' := t2p1 - max t1p1 t1p2
    if den = 0 then none
    else if den' = 0 then none
    else some ((t1p2 - min t2p1 t2p2) / den, (t2p2 - max t1p1 t1p2) / den')
  else
    let den := t2p1 - min t1p1 t1p2
    let den' := t1p1 - max t2p1 t2p2
    if den = 0 then none
    else if den' = 0 then none
    else some ((t2p2 - min t1p1 t1p2) / den, (t1p2 - max t2p1 t2p2) / den')

def resolvePatternTypeId (t1p1 t1p2 t2p1 t2p2 : ℚ) (barDiff : ℤ) (flatRatio : ℚ) : ℤ :=
  if barDiff = 0 then 0
  else
    let bd : ℚ := barDiff
    match lineAngles t1p1 t1p2 t2p1 t2p2 with
    | none => 0
    | some (upperAngle, lowerAngle) =>
      let upperLineDir := if upperAngle > 1 + flatRatio then 1 else if upperAngle < 1 - flatRatio then -1 else 0
      let lowerLineDir := if lowerAngle > 1 + flatRatio then -1 else if lowerAngle < 1 - flatRatio then 1 else 0
      let startDiff := |t1p1 - t2p1|
      let endDiff := |t1p2 - t2p2|
      let minDiff := min startDiff endDiff
      let priceDiff := |startDiff - endDiff| / bd
      -- infinitely many bars where the lines are parallel
      let farApart : Bool := priceDiff = 0 ∨ minDiff / priceDiff > 2 * bd
      let isExpanding : Bool := |t1p2 - t2p2| > |t1p1 - t2p1|
      let isContracting : Bool := |t1p2 - t2p2| < |t1p1 - t2p1|
      let isChannel : Bool := farApart || (!isExpanding && !isContracting) || (upperLineDir = 0 ∧ lowerLineDir = 0 : Bool)
      let invalid : Bool := signum (t1p1 - t2p1) ≠ signum (t1p2 - t2p2)
      max 0 (patternType invalid isChannel isExpanding isContracting upperLineDir lowerLineDir)

/-! ## find.rs -/

structure SizeFilters where
  filterByBar : Bool
  minPatternBars : ℤ
  maxPatternBars : ℤ
  filterByPercent : Bool
  minPatternPercent : ℚ
  maxPatternPercent : ℚ

def checkSizePivots (pivots : List PivotTriple) (filters : SizeFilters) : Bool :=
  if !filters.filterByBar && !filters.filterByPercent then true
  else
    match pivots with
    | [] => false
    | p :: rest =>
      let barMin := rest.foldl (fun m q => min m q.bar) p.bar
      let barMax := rest.foldl (fun m q => max m q.bar) p.bar
      let prMin := rest.foldl (fun m q => min m q.price) p.price
      let prMax := rest.foldl (fun m q => max m q.price) p.price
      let barDiff := barMax - barMin
      let denom := |prMax|
      let priceRatio := if denom = 0 then 0 else (prMax - prMin) / denom
      (!filters.filterByBar || (barDiff ≥ filters.minPatternBars ∧ barDiff ≤ filters.maxPatternBars : Bool)) &&
        (!filters.filterByPercent || (priceRatio ≥ filters.minPatternPercent ∧ priceRatio ≤ filters.maxPatternPercent : Bool))

structure SixPivotScanParams where
  numberOfPivots : ℕ
  barRatioEnabled : Bool
  barRatioLimit : ℚ
  flatRatio : ℚ
  errorScoreRatioMax : ℚ
  upperDirection : ℚ
  lowerDirection : ℚ
  sizeFilters : SizeFilters
  ignoreIfEntryCrossed : Bool

def SizeFilters.default : SizeFilters := ⟨false, 0, 1000, false, 0, 100⟩

def SixPivotScanParams.default : SixPivotScanParams :=
  ⟨5, true, 382 / 1000, 1 / 5, 1 / 5, 1, -1, .default, false⟩

structure SixPivotScanResult where
  patternTypeId : ℤ
  pickUpper : ℕ
  pickLower : ℕ
  upperOk : Bool
  lowerOk : Bool
  upperScore : ℕ
  lowerScore : ℕ
deriving DecidableEq

def endpointsFromPickThree (pick : ℕ) (a b c : ℤ × ℚ) : (ℤ × ℚ) × (ℤ × ℚ) :=
  if pick = 1 then (a, c) else if pick = 2 then (a, b) else (b, c)

/-- Both lines at the first and the last bar. -/
def resolveLines (upper : Bool × ℕ × ℕ) (u : (ℤ × ℚ) × (ℤ × ℚ)) (lower : Bool × ℕ × ℕ) (l : (ℤ × ℚ) × (ℤ × ℚ))
    (b0 bEnd : ℤ) (flatRatio : ℚ) : Option SixPivotScanResult :=
  if !upper.1 || !lower.1 then none
  else
    let bFirst := min b0 bEnd
    let bLast := max b0 bEnd
    match linePriceAtBarIndex u.1 u.2 bFirst, linePriceAtBarIndex u.1 u.2 bLast, linePriceAtBarIndex l.1 l.2 bFirst,
      linePriceAtBarIndex l.1 l.2 bLast with
    | some t1p1, some t1p2, some t2p1, some t2p2 =>
      some ⟨resolvePatternTypeId t1p1 t1p2 t2p1 t2p2 (bLast - bFirst) flatRatio, upper.2.1, lower.2.1, upper.1, lower.1,
        upper.2.2, lower.2.2⟩
    | _, _, _, _ => none

/-- The directions of neighbours differ, and none is 0. -/
def alternates (pivots : List PivotTriple) : Bool :=
  pivots.IsChain fun a b => ¬ (a.dir.sign = 0 ∨ b.dir.sign = 0 ∨ a.dir.sign = b.dir.sign)

/-- The odd pivots, and the even ones: three of six pivots, two of five. -/
def inspectUpper (p0 p2 p4 : PivotTriple) (bars : BarMap) (params : SixPivotScanParams) : Bool × ℕ × ℕ :=
  inspectPickBestThreePointLine p0.at p2.at p4.at params.upperDirection bars params.errorScoreRatioMax

def inspectLower (p1 p3 : PivotTriple) (p5 : Option PivotTriple) (bars : BarMap) (params : SixPivotScanParams) :
    Bool × ℕ × ℕ :=
  match p5 with
  | some p5 => inspectPickBestThreePointLine p1.at p3.at p5.at params.lowerDirection bars params.errorScoreRatioMax
  | none =>
    let (ok, score) := inspectTwoPointLine p1.at p3.at params.lowerDirection bars params.errorScoreRatioMax
    (ok, 1, score)

def lowerEndpoints (pick : ℕ) (p1 p3 : PivotTriple) (p5 : Option PivotTriple) : (ℤ × ℚ) × (ℤ × ℚ) :=
  match p5 with
  | some p5 => endpointsFromPickThree pick p1.at p3.at p5.at
  | none => (p1.at, p3.at)

def scanSixAlternatingPivots (pivots : List PivotTriple) (bars : BarMap) (params : SixPivotScanParams) :
    Option SixPivotScanResult :=
  if ¬ (params.numberOfPivots = 5 ∨ params.numberOfPivots = 6) ∨ pivots.length ≠ params.numberOfPivots then none
  else if !alternates pivots then none
  else
    match pivots with
    | p0 :: p1 :: p2 :: p3 :: p4 :: rest =>
      let p5 := rest.head?
      if !checkBarRatio p0.bar p2.bar p4.bar params.barRatioEnabled params.barRatioLimit then none
      else if p5.any fun p5 => !checkBarRatio p1.bar p3.bar p5.bar params.barRatioEnabled params.barRatioLimit then none
      else
        let upper := inspectUpper p0 p2 p4 bars params
        let lower := inspectLower p1 p3 p5 bars params
        resolveLines upper (endpointsFromPickThree upper.2.1 p0.at p2.at p4.at) lower (lowerEndpoints lower.2.1 p1 p3 p5)
          p0.bar ((p5.getD p4).bar) params.flatRatio
    | _ => none

end Qtss.ChartPatterns
