import Qtss.ChartPatterns.ScanSix
import Mathlib.Data.Sign.Defs
/-
# The Pine v6 original (`reference/trendoscope_pine_v6`)

What `scan.rs`, `resolve.rs` and `find.rs` are ported from.

| here | there |
| --- | --- |
| `getPrice`         | `get_price`, 04_LineWrapper.pine |
| `checkBarRatio`    | `checkBarRatio`, 06_abstractchartpatterns.pine:141 |
| `inspectLine`      | `inspect(ln, ..)`, 06:155 |
| `inspect`          | `inspect(points, ..)`, 06:181; two points or three |
| `resolvePatternName` | 07_basechartpatterns.pine:51; its table of types is `patternType`, the same in both |
| `find`             | `resolve` and `find(points, ..)`, 07:87, :111, without the filters on types, which are `na` |

A float that may be `na` is an `Option`: a division by zero is `na`, and no comparison with `na` holds. `ohlc` is the
series, a bar for every index.
-/

namespace Qtss.ChartPatterns.Pine

def quo (x y : ℚ) : Option ℚ := if y = 0 then none else some (x / y)

structure Line where
  p1 : ℤ × ℚ
  p2 : ℤ × ℚ

def getPrice (ln : Line) (bar : ℤ) : Option ℚ :=
  (quo (ln.p2.2 - ln.p1.2) (ln.p2.1 - ln.p1.1)).map fun stepPerBar =>
    let distance := bar - ln.p1.1
    ln.p1.2 + distance * stepPerBar

def checkBarRatio (p1 p2 p3 : ℤ) (enabled : Bool) (barRatioLimit : ℚ) : Bool :=
  let r := quo |(p3 - p2 : ℤ)| |(p2 - p1 : ℤ)|
  if enabled then
    match r, quo 1 barRatioLimit with
    | some r, some max => barRatioLimit ≤ r ∧ r ≤ max
    | _, _ => false
  else true

def inspectBar (ln : Line) (otherBar : ℤ) (direction : ℚ) (ohlc : ℤ → OhlcBar) (barIndex : ℤ) : Option ℕ :=
  let barOhlc := ohlc barIndex
  let barPrice := if direction > 0 then barOhlc.high else barOhlc.low
  let barOutPrice := if direction > 0 then barOhlc.low else barOhlc.high
  let linePrice := getPrice ln barIndex
  if linePrice.any fun p => p * direction < min (barOhlc.openPrice * direction) (barOhlc.close * direction) then none
  else if linePrice.any fun p => p * direction ≥ barOutPrice * direction ∧ p * direction ≤ barPrice * direction then some 1
  else if barIndex = otherBar then none
  else some 0

def inspectLine (ln : Line) (startingBar endingBar otherBar : ℤ) (direction : ℚ) (ohlc : ℤ → OhlcBar) : Bool × ℕ :=
  let (valid, score, total) :=
    BreakLoop.run (inspectBar ln otherBar direction ohlc) (Int.range startingBar (endingBar + 1)) (0, 0)
  (valid && (quo score total).any (· < 1 / 5), score)

/-- Whether the best line holds, and the line. -/
def inspect (points : List (ℤ × ℚ)) (startingBar endingBar : ℤ) (direction : ℚ) (ohlc : ℤ → OhlcBar) :
    Option (Bool × Line) :=
  match points with
  | [a, b, c] =>
    let (valid1, score1) := inspectLine ⟨a, c⟩ startingBar endingBar b.1 direction ohlc
    let (valid2, score2) := inspectLine ⟨a, b⟩ startingBar endingBar c.1 direction ohlc
    let (valid3, score3) := inspectLine ⟨b, c⟩ startingBar endingBar a.1 direction ohlc
    let returnItem := if valid1 && score1 > max score2 score3 then 1 else if valid2 && score2 > max score1 score3 then 2 else 3
    some (if returnItem = 1 then valid1 else if returnItem = 2 then valid2 else valid3,
      if returnItem = 1 then ⟨a, c⟩ else if returnItem = 2 then ⟨a, b⟩ else ⟨b, c⟩)
  | [a, b] => some ((inspectLine ⟨a, b⟩ startingBar endingBar a.1 direction ohlc).1, ⟨a, b⟩)
  | _ => none

def resolvePatternName (t1p1 t1p2 t2p1 t2p2 : ℚ) (barDiff : ℤ) (flatRatio : ℚ) : ℤ :=
  let upperAngle := if t1p1 > t2p1 then quo (t1p2 - min t2p1 t2p2) (t1p1 - min t2p1 t2p2)
    else quo (t2p2 - min t1p1 t1p2) (t2p1 - min t1p1 t1p2)
  let lowerAngle := if t1p1 > t2p1 then quo (t2p2 - max t1p1 t1p2) (t2p1 - max t1p1 t1p2)
    else quo (t1p2 - max t2p1 t2p2) (t1p1 - max t2p1 t2p2)
  let upperLineDir := if upperAngle.any (· > 1 + flatRatio) then 1 else if upperAngle.any (· < 1 - flatRatio) then -1 else 0
  let lowerLineDir := if lowerAngle.any (· > 1 + flatRatio) then -1 else if lowerAngle.any (· < 1 - flatRatio) then 1 else 0
  let startDiff := |t1p1 - t2p1|
  let endDiff := |t1p2 - t2p2|
  let minDiff := min startDiff endDiff
  let priceDiff := quo |startDiff - endDiff| barDiff
  let probableConvergingBars := priceDiff.bind (quo minDiff)
  let isExpanding : Bool := |t1p2 - t2p2| > |t1p1 - t2p1|
  let isContracting : Bool := |t1p2 - t2p2| < |t1p1 - t2p1|
  let isChannel : Bool := probableConvergingBars.any (· > (2 * barDiff : ℚ)) || (!isExpanding && !isContracting) ||
    (upperLineDir = 0 ∧ lowerLineDir = 0 : Bool)
  let invalid : Bool := SignType.sign (t1p1 - t2p1) ≠ SignType.sign (t1p2 - t2p2)
  max 0 (patternType invalid isChannel isExpanding isContracting upperLineDir lowerLineDir)

/-- The type of a valid pattern. -/
def find (points : List PivotTriple) (properties : SixPivotScanParams) (ohlc : ℤ → OhlcBar) : Option ℤ :=
  match points with
  | p0 :: p1 :: p2 :: p3 :: p4 :: rest =>
    let p5 := if properties.numberOfPivots = 6 then rest.head? else none
    let ratioOf := fun (a b c : PivotTriple) =>
      checkBarRatio a.bar b.bar c.bar properties.barRatioEnabled properties.barRatioLimit
    let validPattern := p5.all (ratioOf p1 p3 ·) && ratioOf p0 p2 p4
    if !validPattern then none
    else do
      let firstIndex := p0.bar
      let lastIndex := (p5.getD p4).bar
      let firstDirection : ℚ := if p0.price > p1.price then 1 else -1
      let (valid1, trendLine1) ← inspect [p0.at, p2.at, p4.at] firstIndex lastIndex firstDirection ohlc
      let (valid2, trendLine2) ← inspect ([p1.at, p3.at] ++ p5.toList.map (·.at)) firstIndex lastIndex (-firstDirection) ohlc
      if valid1 && valid2 then
        let t1p1 ← getPrice trendLine1 firstIndex
        let t1p2 ← getPrice trendLine1 lastIndex
        let t2p1 ← getPrice trendLine2 firstIndex
        let t2p2 ← getPrice trendLine2 lastIndex
        some (resolvePatternName t1p1 t1p2 t2p1 t2p2 (lastIndex - firstIndex) properties.flatRatio)
      else none
  | _ => none

end Qtss.ChartPatterns.Pine
