import Mathlib.Data.List.ReduceOption
import Mathlib.Data.Rat.Floor
/-
# The trading range (`qtss-chart-patterns/src/trading_range.rs`)

| here | there |
| --- | --- |
| `OhlcBar` | ohlc.rs:28, without `open`, which is not read |
| `wilderAtr`, `lastFiniteSma` | trading_range.rs:240, :262 |
| `wilderRsi` | :275 |
| `volumeScoresByZone` | :318 |
| `isPivotLow`, `isPivotHigh` | :366, :446 |
| `classifyRangeZone`, `applyRangeZoneAndReclaim` | :384, :403 |
| `analyzeTradingRange` | :472 |

The body of `analyze_trading_range` is cut in two: `measure` reads the bars, `judge` makes the result of what was
measured. An `f64` is the rational it is, `none` where it is NaN. `i32` and `usize` are not exceeded: the scores are small,
and `lookback + 2` overflows only next to `usize::MAX`.
-/

namespace Qtss.ChartPatterns.TradingRange

structure OhlcBar where
  high : ℚ
  low : ℚ
  close : ℚ
  barIndex : ℤ
  volume : Option ℚ
deriving DecidableEq

structure TradingRangeParams where
  lookback : ℕ
  atrPeriod : ℕ
  atrSmaPeriod : ℕ
  requireRangeRegime : Bool
  pivotWindow : ℕ
  minSupportTouches : ℕ
  minResistanceTouches : ℕ
  touchToleranceAtrMult : ℚ
  closeBreakoutLookback : ℕ
  rangeWidthMinAtrMult : ℚ
  rangeWidthMaxAtrMult : ℚ
  setupScoreThreshold : ℤ
  setupScoreStrongThreshold : ℤ
  zoneEdgeFraction : ℚ
  enableRangeZoneFilter : Bool
  requireEdgeReclaimForSetup : Bool
  rsiPeriod : ℕ
  rsiOversold : ℚ
  rsiOverbought : ℚ
  volumeAvgLookback : ℕ
  volumeSpikeRatioFull : ℚ
  volumeSpikeRatioPartial : ℚ

def TradingRangeParams.default : TradingRangeParams where
  lookback := 50
  atrPeriod := 14
  atrSmaPeriod := 50
  requireRangeRegime := false
  pivotWindow := 3
  minSupportTouches := 2
  minResistanceTouches := 2
  touchToleranceAtrMult := 1 / 4
  closeBreakoutLookback := 20
  rangeWidthMinAtrMult := 1
  rangeWidthMaxAtrMult := 6
  setupScoreThreshold := 60
  setupScoreStrongThreshold := 75
  zoneEdgeFraction := 1 / 4
  enableRangeZoneFilter := true
  requireEdgeReclaimForSetup := true
  rsiPeriod := 14
  rsiOversold := 30
  rsiOverbought := 70
  volumeAvgLookback := 20
  volumeSpikeRatioFull := 3 / 2
  volumeSpikeRatioPartial := 115 / 100

/-- The texts of `range_zone`. -/
inductive RangeZone where
  | upper | mid | lower | unknown
deriving DecidableEq, Repr

/-- The texts of `setup_side`. -/
inductive SetupSide where
  | long | short | notr
deriving DecidableEq, Repr

structure TradingRangeResult where
  valid : Bool
  reason : Option String
  barCount : ℕ
  rangeHigh : Option ℚ
  rangeLow : Option ℚ
  mid : Option ℚ
  isRangeRegime : Bool
  atr : Option ℚ
  atrSma : Option ℚ
  windowBarFirst : Option ℤ
  windowBarLast : Option ℤ
  lastBarIndex : Option ℤ
  longSweepSignal : Bool
  shortSweepSignal : Bool
  longSweepLatent : Bool
  shortSweepLatent : Bool
  supportTouches : ℕ
  resistanceTouches : ℕ
  closeBreakout : Bool
  rangeWidth : Option ℚ
  rangeWidthAtr : Option ℚ
  rangeTooNarrow : Bool
  rangeTooWide : Bool
  wickRejectionLong : Bool
  wickRejectionShort : Bool
  fakeBreakoutLong : Bool
  fakeBreakoutShort : Bool
  setupScoreLong : ℤ
  setupScoreShort : ℤ
  setupScoreBest : ℤ
  guardrailsPass : Bool
  setupSide : SetupSide
  scoreTouchLong : ℤ
  scoreTouchShort : ℤ
  scoreRejectionLong : ℤ
  scoreRejectionShort : ℤ
  scoreOscillatorLong : ℤ
  scoreOscillatorShort : ℤ
  scoreVolumeLong : ℤ
  scoreVolumeShort : ℤ
  scoreBreakoutLong : ℤ
  scoreBreakoutShort : ℤ
  volumeUnavailable : Bool
  rangeZone : RangeZone
deriving DecidableEq

/-! ## Series -/

def trueRange (h l prevClose : ℚ) : ℚ :=
  let a := h - l
  let b := |h - prevClose|
  let c := |l - prevClose|
  max (max a b) c

def trueRanges (bars : List OhlcBar) : List ℚ :=
  List.zipWith (fun prev b => trueRange b.high b.low prev.close) bars bars.tail

def wilderAtr (bars : List OhlcBar) (period : ℕ) : List (Option ℚ) :=
  if bars.length < period + 1 ∨ period < 1 then List.replicate bars.length none
  else
    let tr := trueRanges bars
    let first : ℚ := (tr.take period).sum / period
    List.replicate period none ++
      ((tr.drop period).scanl (fun (prev t : ℚ) => (prev * (period - 1) + t) / period) first).map some

def lastFiniteSma (slice : List (Option ℚ)) (len : ℕ) : Option ℚ :=
  if len < 1 then none
  else
    let acc := slice.reduceOption
    if acc.length < len then none
    else
      let tail := acc.drop (acc.length - len)
      some (tail.sum / len)

def gain (d : ℚ) : ℚ := if d ≥ 0 then d else 0

def loss (d : ℚ) : ℚ := if d ≥ 0 then 0 else -d

/-- `closes[i] - closes[i - 1]`. -/
def changes (closes : List ℚ) : List ℚ :=
  List.zipWith (fun prev cur => cur - prev) closes closes.tail

/-- "`(avg_g * (period - 1) + g) / period`", and so for the losses. -/
def smooth (p : ℚ) (avg : ℚ × ℚ) (d : ℚ) : ℚ × ℚ :=
  ((avg.1 * (p - 1) + gain d) / p, (avg.2 * (p - 1) + loss d) / p)

/-- `(avg_g, avg_l)` at every bar. -/
def wilderAverages (closes : List ℚ) (period : ℕ) : List (Option (ℚ × ℚ)) :=
  if closes.length < period + 1 ∨ period < 2 then List.replicate closes.length none
  else
    let ds := changes closes
    let avg := (((ds.take period).map gain).sum / period, ((ds.take period).map loss).sum / period)
    List.replicate period none ++ ((ds.drop period).scanl (smooth period) avg).map some

/-- Without losses `rs` is 100, and the RSI a little above 99. -/
def rsiValue (avg : ℚ × ℚ) : ℚ :=
  let rs := if avg.2 ≤ 1 / 10 ^ 12 then 100 else avg.1 / avg.2
  100 - 100 / (1 + rs)

def wilderRsi (closes : List ℚ) (period : ℕ) : List (Option ℚ) := (wilderAverages closes period).map (Option.map rsiValue)

/-! ## Scores and zones -/

def volumeScoresByZone (bars : List OhlcBar) (lastIdx : ℕ) (params : TradingRangeParams) (longInZone shortInZone : Bool) :
    ℤ × ℤ × Bool :=
  let lb := min (max params.volumeAvgLookback 3) (max lastIdx 1)
  if lastIdx = 0 then (0, 0, true)
  else
    match (bars[lastIdx]?.bind (·.volume)).filter (0 ≤ ·) with
    | none => (0, 0, true)
    | some lastV =>
      let start := lastIdx - lb
      let volumes := ((bars.take lastIdx).drop start).filterMap fun b => b.volume.filter (0 ≤ ·)
      let minNeeded := min (max (lb * 7 / 10) 3) lb
      if volumes.length < minNeeded then (0, 0, true)
      else
        let avg := volumes.sum / volumes.length
        if avg ≤ 1 / 10 ^ 18 then (0, 0, false)
        else
          let ratio := lastV / avg
          let rHi := max params.volumeSpikeRatioFull (1000001 / 1000000)
          let rLo := max 1 (min params.volumeSpikeRatioPartial rHi)
          let pts := if ratio ≥ rHi then 15 else if ratio ≥ rLo then 8 else 0
          (if longInZone then pts else 0, if shortInZone then pts else 0, false)

/-- No other bar of the fractal has a price beyond that of bar `i`. -/
def isPivot (price : OhlcBar → ℚ) (beyond : ℚ → ℚ → Bool) (bars : List OhlcBar) (i w : ℕ) : Bool :=
  if w < 1 then false
  else if i < w ∨ i + w ≥ bars.length then false
  else
    let p := (bars[i]?).map price
    (List.range' (i - w) (2 * w + 1)).all fun j =>
      j = i || !((bars[j]?).any fun b => p.any fun p => beyond (price b) p)

def isPivotLow : List OhlcBar → ℕ → ℕ → Bool := isPivot (·.low) (· < ·)

def isPivotHigh : List OhlcBar → ℕ → ℕ → Bool := isPivot (·.high) (· > ·)

def classifyRangeZone (close rh rl edgeFraction : ℚ) : RangeZone :=
  let w := rh - rl
  if w ≤ 1 / 10 ^ 12 then .mid
  else
    let f := max (5 / 100) (min edgeFraction (45 / 100))
    let upperBand := rh - w * f
    let lowerBand := rl + w * f
    if close ≥ upperBand then .upper
    else if close ≤ lowerBand then .lower
    else .mid

/-- The zone, and what it leaves of the two scores. -/
def applyRangeZoneAndReclaim (params : TradingRangeParams) (close rh rl : ℚ)
    (longSweepLatent fakeBreakoutLong shortSweepLatent fakeBreakoutShort : Bool) (scoreLong scoreShort : ℤ) :
    RangeZone × ℤ × ℤ :=
  let zone := classifyRangeZone close rh rl params.zoneEdgeFraction
  if !params.enableRangeZoneFilter then (zone, scoreLong, scoreShort)
  else
    match zone with
    | .mid => (zone, 0, 0)
    | .upper =>
      (zone, 0, if params.requireEdgeReclaimForSetup && scoreShort > 0 && !(shortSweepLatent || fakeBreakoutShort) then 0
        else scoreShort)
    | .lower =>
      (zone, if params.requireEdgeReclaimForSetup && scoreLong > 0 && !(longSweepLatent || fakeBreakoutLong) then 0
        else scoreLong, 0)
    | .unknown => (zone, scoreLong, scoreShort)

/-! ## The analysis -/

/-- `rh`, `rl`, `bf` and `bl`. -/
structure Band where
  high : ℚ
  low : ℚ
  barFirst : ℤ
  barLast : ℤ

def bandOf (first : OhlcBar) (rest : List OhlcBar) : Band :=
  rest.foldl (fun w b => ⟨max w.high b.high, min w.low b.low, min w.barFirst b.barIndex, max w.barLast b.barIndex⟩)
    ⟨first.high, first.low, first.barIndex, first.barIndex⟩

def Band.width (band : Band) : ℚ := |band.high - band.low|

def tolPx (atrLast : Option ℚ) (params : TradingRangeParams) (width : ℚ) : ℚ :=
  match atrLast with
  | some atr => |atr * params.touchToleranceAtrMult|
  | none => |width * (1 / 100)|

/-- What is read from the bars. -/
structure Measures where
  barCount : ℕ
  atrLast : Option ℚ
  atrSmaLast : Option ℚ
  band : Band
  last : OhlcBar
  supportTouches : ℕ
  resistanceTouches : ℕ
  closeBreakout : Bool

def measure (bars : List OhlcBar) (params : TradingRangeParams) (band : Band) (last : OhlcBar) : Measures :=
  let n := bars.length
  let lookback := max params.lookback 5
  let atrSeries := wilderAtr bars (max params.atrPeriod 2)
  let atrLast := atrSeries.getLast?.join
  let atrSmaLast := if atrLast.isSome then lastFiniteSma atrSeries (max params.atrSmaPeriod 2) else none
  let tol := tolPx atrLast params band.width
  let w := min (max params.pivotWindow 1) 20
  let window := List.range' (n - 1 - lookback) lookback
  let pivotLows := (window.filter fun i => isPivotLow bars i w).filterMap fun i => (bars[i]?).map (·.low)
  let pivotHighs := (window.filter fun i => isPivotHigh bars i w).filterMap fun i => (bars[i]?).map (·.high)
  let ncl := min (max params.closeBreakoutLookback 3) 200
  { barCount := n
    atrLast := atrLast
    atrSmaLast := atrSmaLast
    band := band
    last := last
    supportTouches := pivotLows.countP fun x => |x - band.low| ≤ tol
    resistanceTouches := pivotHighs.countP fun x => |x - band.high| ≤ tol
    closeBreakout := (bars.drop (n - ncl)).any fun b => b.close > band.high + tol ∨ b.close < band.low - tol }

/-- The bounds of the RSI, 30 and 70 where those given are in the wrong order. -/
def rsiBounds (params : TradingRangeParams) : ℚ × ℚ :=
  if params.rsiOversold ≥ params.rsiOverbought then (30, 70) else (params.rsiOversold, params.rsiOverbought)

def rsiPeriod (params : TradingRangeParams) : ℕ := min (max params.rsiPeriod 2) 200

/-- `(rsi_long_extreme, rsi_short_extreme)`. -/
def rsiExtremes (bars : List OhlcBar) (params : TradingRangeParams) : Bool × Bool :=
  let rsiLast := (wilderRsi (bars.map (·.close)) (rsiPeriod params)).getLast?.join
  let (rsiLow, rsiHigh) := rsiBounds params
  (rsiLast.any (· < rsiLow), rsiLast.any (· > rsiHigh))

/-- `round` of an `f64`, half away from zero. -/
def roundHalfAway (x : ℚ) : ℤ := if 0 ≤ x then ⌊x + 1 / 2⌋ else -⌊-x + 1 / 2⌋

/-- (0–30). -/
def touchScore (supportTouches resistanceTouches : ℕ) (params : TradingRangeParams) : ℤ :=
  let supRatio : ℚ := supportTouches / (max params.minSupportTouches 1 : ℕ)
  let resRatio : ℚ := resistanceTouches / (max params.minResistanceTouches 1 : ℕ)
  max 0 (min (roundHalfAway (min supRatio 1 * 15 + min resRatio 1 * 15)) 30)

/-- (0–20), for either side. -/
def rejectionScore (inZone wickRejection fakeBreakout : Bool) : ℤ :=
  max 0 (min ((if inZone then 5 else 0) + (if wickRejection then 10 else 0) + (if fakeBreakout then 5 else 0)) 20)

/-- (0–15), for either side. -/
def oscillatorScore (extreme : Bool) : ℤ := max 0 (min (if extreme then 15 else 0) 15)

/-- (0–20), for either side. -/
def breakoutScore (fakeBreakout wickRejection sweepLatent : Bool) : ℤ :=
  if fakeBreakout then 20 else if wickRejection || sweepLatent then 10 else 0

/-- The side, and `setup_score_best`. -/
def chooseSide (threshold scoreLong scoreShort : ℤ) : SetupSide × ℤ :=
  if scoreLong ≥ threshold ∧ scoreLong ≥ scoreShort then (.long, scoreLong)
  else if scoreShort ≥ threshold then (.short, scoreShort)
  else (.notr, max scoreLong scoreShort)

def rejectReason (regimeOk touchesOk closeBreakout tooNarrow tooWide : Bool) : Option String :=
  if !regimeOk then some "require_range_regime: ATR >= ATR_SMA"
  else if !touchesOk then some "touches: support/resistance < min"
  else if closeBreakout then some "breakout: close outside range"
  else if tooNarrow then some "range_width: too narrow"
  else if tooWide then some "range_width: too wide"
  else none

/-! The locals of the source that more than one field of the result is made of. -/

namespace Measures
variable (m : Measures) (params : TradingRangeParams)

def isRangeRegime : Bool := m.atrLast.any fun atr => m.atrSmaLast.any fun sma => atr < sma

def regimeOk : Bool := !params.requireRangeRegime || m.isRangeRegime

def longSweepLatent : Bool := m.last.low < m.band.low ∧ m.last.close > m.band.low

def shortSweepLatent : Bool := m.last.high > m.band.high ∧ m.last.close < m.band.high

def tol : ℚ := tolPx m.atrLast params m.band.width

def rangeWidthAtr : Option ℚ :=
  (m.atrLast.filter fun atr => |atr| > 1 / 10 ^ 12).map fun atr => m.band.width / |atr|

def rangeTooNarrow : Bool := m.rangeWidthAtr.any (· < max params.rangeWidthMinAtrMult (5 / 100))

def rangeTooWide : Bool :=
  m.rangeWidthAtr.any (· > max params.rangeWidthMaxAtrMult (max params.rangeWidthMinAtrMult (5 / 100) + 5 / 100))

def wickRejectionLong : Bool := m.last.low < m.band.low ∧ m.last.close > m.band.low

def wickRejectionShort : Bool := m.last.high > m.band.high ∧ m.last.close < m.band.high

def fbWickPx : ℚ :=
  match m.atrLast with
  | some atr => |atr| * (1 / 4)
  | none => max (m.tol params) (m.band.width * (1 / 100))

def fakeBreakoutLong : Bool := m.last.low < m.band.low - m.fbWickPx params ∧ m.last.close ≥ m.band.low

def fakeBreakoutShort : Bool := m.last.high > m.band.high + m.fbWickPx params ∧ m.last.close ≤ m.band.high

def touchesOk : Bool :=
  m.supportTouches ≥ max params.minSupportTouches 1 ∧ m.resistanceTouches ≥ max params.minResistanceTouches 1

def hardOk : Bool :=
  m.touchesOk params && !m.closeBreakout && !m.rangeTooNarrow params && !m.rangeTooWide params

def longInZone : Bool := |m.last.low - m.band.low| ≤ m.tol params ∨ |m.last.close - m.band.low| ≤ m.tol params

def shortInZone : Bool := |m.last.high - m.band.high| ≤ m.tol params ∨ |m.last.close - m.band.high| ≤ m.tol params

def scoreTouch : ℤ := touchScore m.supportTouches m.resistanceTouches params

def scoreRejectionLong : ℤ := rejectionScore (m.longInZone params) m.wickRejectionLong (m.fakeBreakoutLong params)

def scoreRejectionShort : ℤ := rejectionScore (m.shortInZone params) m.wickRejectionShort (m.fakeBreakoutShort params)

def scoreBreakoutLong : ℤ := breakoutScore (m.fakeBreakoutLong params) m.wickRejectionLong m.longSweepLatent

def scoreBreakoutShort : ℤ := breakoutScore (m.fakeBreakoutShort params) m.wickRejectionShort m.shortSweepLatent

def volumeScores (bars : List OhlcBar) : ℤ × ℤ × Bool :=
  volumeScoresByZone bars (m.barCount - 1) params (m.longInZone params) (m.shortInZone params)

/-- A rejected setup has no score. -/
def guarded (score : ℤ) : ℤ := if m.regimeOk params && m.hardOk params then score else 0

/-- `range_zone`, and `score_long` and `score_short` at the end. -/
def zoned (bars : List OhlcBar) (rsiExtreme : Bool × Bool) : RangeZone × ℤ × ℤ :=
  let volume := m.volumeScores params bars
  let scoreLong :=
    m.scoreTouch params + m.scoreRejectionLong params + oscillatorScore rsiExtreme.1 + volume.1 +
      m.scoreBreakoutLong params
  let scoreShort :=
    m.scoreTouch params + m.scoreRejectionShort params + oscillatorScore rsiExtreme.2 + volume.2.1 +
      m.scoreBreakoutShort params
  applyRangeZoneAndReclaim params m.last.close m.band.high m.band.low m.longSweepLatent (m.fakeBreakoutLong params)
    m.shortSweepLatent (m.fakeBreakoutShort params) (m.guarded params scoreLong) (m.guarded params scoreShort)

def threshold : ℤ := if m.isRangeRegime then params.setupScoreThreshold else params.setupScoreStrongThreshold

def setup (bars : List OhlcBar) (rsiExtreme : Bool × Bool) : SetupSide × ℤ :=
  chooseSide (m.threshold params) (m.zoned params bars rsiExtreme).2.1 (m.zoned params bars rsiExtreme).2.2

end Measures

def judge (bars : List OhlcBar) (params : TradingRangeParams) (m : Measures) (rsiExtreme : Bool × Bool) :
    TradingRangeResult :=
  { valid := m.regimeOk params && m.hardOk params
    reason := rejectReason (m.regimeOk params) (m.touchesOk params) m.closeBreakout (m.rangeTooNarrow params)
      (m.rangeTooWide params)
    barCount := m.barCount
    rangeHigh := some m.band.high
    rangeLow := some m.band.low
    mid := some ((m.band.high + m.band.low) * (1 / 2))
    isRangeRegime := m.isRangeRegime
    atr := m.atrLast
    atrSma := m.atrSmaLast
    windowBarFirst := some m.band.barFirst
    windowBarLast := some m.band.barLast
    lastBarIndex := some m.last.barIndex
    longSweepSignal := m.regimeOk params && m.longSweepLatent
    shortSweepSignal := m.regimeOk params && m.shortSweepLatent
    longSweepLatent := m.longSweepLatent
    shortSweepLatent := m.shortSweepLatent
    supportTouches := m.supportTouches
    resistanceTouches := m.resistanceTouches
    closeBreakout := m.closeBreakout
    rangeWidth := some m.band.width
    rangeWidthAtr := m.rangeWidthAtr
    rangeTooNarrow := m.rangeTooNarrow params
    rangeTooWide := m.rangeTooWide params
    wickRejectionLong := m.wickRejectionLong
    wickRejectionShort := m.wickRejectionShort
    fakeBreakoutLong := m.fakeBreakoutLong params
    fakeBreakoutShort := m.fakeBreakoutShort params
    setupScoreLong := (m.zoned params bars rsiExtreme).2.1
    setupScoreShort := (m.zoned params bars rsiExtreme).2.2
    setupScoreBest := (m.setup params bars rsiExtreme).2
    guardrailsPass := m.regimeOk params && m.hardOk params
    setupSide := (m.setup params bars rsiExtreme).1
    scoreTouchLong := m.scoreTouch params
    scoreTouchShort := m.scoreTouch params
    scoreRejectionLong := m.scoreRejectionLong params
    scoreRejectionShort := m.scoreRejectionShort params
    scoreOscillatorLong := oscillatorScore rsiExtreme.1
    scoreOscillatorShort := oscillatorScore rsiExtreme.2
    scoreVolumeLong := (m.volumeScores params bars).1
    scoreVolumeShort := (m.volumeScores params bars).2.1
    scoreBreakoutLong := m.scoreBreakoutLong params
    scoreBreakoutShort := m.scoreBreakoutShort params
    volumeUnavailable := (m.volumeScores params bars).2.2
    rangeZone := (m.zoned params bars rsiExtreme).1 }

def tooFewBars (n lookback : ℕ) : TradingRangeResult where
  valid := false
  reason := some s!"en az {lookback + 2} mum gerekli (lookback+2)"
  barCount := n
  rangeHigh := none
  rangeLow := none
  mid := none
  isRangeRegime := false
  atr := none
  atrSma := none
  windowBarFirst := none
  windowBarLast := none
  lastBarIndex := none
  longSweepSignal := false
  shortSweepSignal := false
  longSweepLatent := false
  shortSweepLatent := false
  supportTouches := 0
  resistanceTouches := 0
  closeBreakout := false
  rangeWidth := none
  rangeWidthAtr := none
  rangeTooNarrow := false
  rangeTooWide := false
  wickRejectionLong := false
  wickRejectionShort := false
  fakeBreakoutLong := false
  fakeBreakoutShort := false
  setupScoreLong := 0
  setupScoreShort := 0
  setupScoreBest := 0
  guardrailsPass := false
  setupSide := .notr
  scoreTouchLong := 0
  scoreTouchShort := 0
  scoreRejectionLong := 0
  scoreRejectionShort := 0
  scoreOscillatorLong := 0
  scoreOscillatorShort := 0
  scoreVolumeLong := 0
  scoreVolumeShort := 0
  scoreBreakoutLong := 0
  scoreBreakoutShort := 0
  volumeUnavailable := true
  rangeZone := .unknown

def analyzeTradingRange (bars : List OhlcBar) (params : TradingRangeParams) : TradingRangeResult :=
  let n := bars.length
  let lookback := max params.lookback 5
  if n < lookback + 2 then tooFewBars n lookback
  else
    -- the window ends before the last bar
    match (bars.drop (n - 1 - lookback)).take lookback, bars.getLast? with
    | first :: rest, some last =>
      judge bars params (measure bars params (bandOf first rest) last) (rsiExtremes bars params)
    | _, _ => tooFewBars n lookback

end Qtss.ChartPatterns.TradingRange
