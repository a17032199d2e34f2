import Qtss.ChartPatterns.NextLevel
import Qtss.ChartPatterns.ScanSix
/-
# Scanning the levels (`qtss-chart-patterns/src/find.rs`)

| here | there |
| --- | --- |
| `zigzagFromOhlcBars` | find.rs:20 |
| `channelSixDrawingHints` | :363 |
| `nPivotsChronoTailSkip` | :457 |
| `tryScanSixWindow`   | :471 |
| `analyzeChannelSixFromBars` | :756; `scanSkips` is its loop over the windows of a level, `scanLevels` that over the levels |

A window of fewer than five pivots ends in a panic there, and in a reject here. `Scan.levels` counts the levels the loop
has looked at; the source does not keep it.
-/

namespace Qtss.ChartPatterns

/-- Prices with the infinities a pivot candle starts from. -/
abbrev Price := WithBot (WithTop ℚ)

def Price.finite : Price → ℚ
  | some (some q) => q
  | _ => 0

variable {R : Type*} (f : Ratios Price R)

/-- The times are made up from the keys. -/
def zigzagFromOhlcBars (bars : BarMap) (zigzagLength maxPivots offset : ℕ) : ZigzagLite Price R :=
  let keys := bars.entries.map (·.1)
  let highs : List Price := bars.entries.map fun e => ((e.2.high : WithTop ℚ) : Price)
  let lows : List Price := bars.entries.map fun e => ((e.2.low : WithTop ℚ) : Price)
  let times := keys.map (· * 60000)
  keys.zipIdx.foldl (fun zz (barIndex, i) => zz.calculateBar f i times barIndex highs lows)
    (.new zigzagLength maxPivots offset)

def nPivotsChronoTailSkip (zz : ZigzagLite Price R) (n tailSkip : ℕ) : Option (List PivotTriple) :=
  let ch := pivotsChronological zz
  if ch.length < n + tailSkip then none
  else some (((ch.drop (ch.length - n - tailSkip)).take n).map fun p => ⟨p.point.index, p.point.price.finite, p.dir⟩)

structure ChannelSixScanOutcome where
  scan : SixPivotScanResult
  pivots : List PivotTriple
  zigzagPivotCount : ℕ
  pivotTailSkip : ℕ
  zigzagLevel : ℤ

/-- The upper and the lower line, from the first bar of the pattern to the last. -/
def channelSixDrawingHints (outcome : ChannelSixScanOutcome) : ((ℤ × ℚ) × (ℤ × ℚ)) × ((ℤ × ℚ) × (ℤ × ℚ)) :=
  match outcome.pivots with
  | p0 :: p1 :: p2 :: p3 :: p4 :: rest =>
    let p5 := rest.head?
    let (u1, u2) := endpointsFromPickThree outcome.scan.pickUpper p0.at p2.at p4.at
    let (l1, l2) := lowerEndpoints outcome.scan.pickLower p1 p3 p5
    let bFirst := min p0.bar (p5.getD p4).bar
    let bLast := max p0.bar (p5.getD p4).bar
    (((bFirst, (linePriceAtBarIndex u1 u2 bFirst).getD u1.2), (bLast, (linePriceAtBarIndex u1 u2 bLast).getD u2.2)),
      ((bFirst, (linePriceAtBarIndex l1 l2 bFirst).getD l1.2), (bLast, (linePriceAtBarIndex l1 l2 bLast).getD l2.2)))
  | _ => (((0, 0), (0, 0)), ((0, 0), (0, 0)))

inductive ChannelSixRejectCode where
  | insufficientPivots | pivotAlternation | barRatioUpper | barRatioLower | inspectUpper | inspectLower
  | patternNotAllowed | overlapIgnored | duplicatePivotWindow | lastPivotDirection | sizeFilter | entryNotInChannel
deriving DecidableEq, Repr

structure ChannelSixReject where
  code : ChannelSixRejectCode
  havePivots : Option ℕ
  needPivots : Option ℕ
deriving DecidableEq

def reject (code : ChannelSixRejectCode) : ChannelSixReject := ⟨code, none, none⟩

structure ChannelSixWindowFilter where
  avoidOverlap : Bool
  existingRanges : List (ℤ × ℤ)
  duplicatePivotBars : Option (List ℤ)
  allowedLastPivotDirections : Option (List ℤ)

/-- `current_start > lo && current_start < hi`. -/
def startsInside (currentStart : ℤ) (range : ℤ × ℤ) : Bool :=
  currentStart > min range.1 range.2 ∧ currentStart < max range.1 range.2

def isDuplicate (six : List PivotTriple) (n : ℕ) (bars : List ℤ) : Bool :=
  bars.length = n - 1 ∧ (six.take (n - 1)).map (·.bar) = bars

/-- `sign(last - prev)` of the last two pivots. -/
def lastDirection (last prev : PivotTriple) : ℤ :=
  if last.price > prev.price then 1 else if last.price < prev.price then -1 else 0

/-- The close of the last bar lies between the lines. -/
def entryInChannel (scan : SixPivotScanResult) (six : List PivotTriple) (bars : BarMap) : Bool :=
  let (upper, lower) := channelSixDrawingHints ⟨scan, six, 0, 0, 0⟩
  match bars.entries.getLast? with
  | none => false
  | some (lastBar, lastOhlc) =>
    match linePriceAtBarIndex upper.1 upper.2 lastBar, linePriceAtBarIndex lower.1 lower.2 lastBar with
    | some upr, some lopr => !(lastOhlc.close < min upr lopr ∨ lastOhlc.close > max upr lopr : Bool)
    | _, _ => false

def typeAllowed (allowed : Option (List ℤ)) (patternTypeId : ℤ) : Bool :=
  allowed.all fun allowed => allowed.isEmpty || allowed.contains patternTypeId

def directionAllowed (dirs : Option (List ℤ)) (patternTypeId : ℤ) (last prev : PivotTriple) : Bool :=
  dirs.all fun dirs =>
    let required := dirs[patternTypeId.toNat]?.getD 0
    required = 0 ∨ lastDirection last prev = required

def tryScanSixWindow (six : List PivotTriple) (bars : BarMap) (params : SixPivotScanParams)
    (allowedPatternIds : Option (List ℤ)) (filter : ChannelSixWindowFilter) : Except ChannelSixReject SixPivotScanResult :=
  let n := params.numberOfPivots
  if six.length ≠ n then .error ⟨.insufficientPivots, some six.length, some n⟩
  else if !alternates six then .error (reject .pivotAlternation)
  else
    match six with
    | p0 :: p1 :: p2 :: p3 :: p4 :: rest =>
      let p5 := if n = 6 then rest.head? else none
      if !checkBarRatio p0.bar p2.bar p4.bar params.barRatioEnabled params.barRatioLimit then .error (reject .barRatioUpper)
      else if p5.any fun p5 => !checkBarRatio p1.bar p3.bar p5.bar params.barRatioEnabled params.barRatioLimit then
        .error (reject .barRatioLower)
      else if !checkSizePivots six params.sizeFilters then .error (reject .sizeFilter)
      else if filter.avoidOverlap && filter.existingRanges.any (startsInside p0.bar) then .error (reject .overlapIgnored)
      else if filter.duplicatePivotBars.any (isDuplicate six n) then .error (reject .duplicatePivotWindow)
      else if !(inspectUpper p0 p2 p4 bars params).1 then .error (reject .inspectUpper)
      else if !(inspectLower p1 p3 p5 bars params).1 then .error (reject .inspectLower)
      else
        match scanSixAlternatingPivots six bars params with
        | none => .error (reject .inspectLower)
        | some scan =>
          if !typeAllowed allowedPatternIds scan.patternTypeId then .error (reject .patternNotAllowed)
          else if !directionAllowed filter.allowedLastPivotDirections scan.patternTypeId (p5.getD p4)
              (if n = 6 then p4 else p3) then .error (reject .lastPivotDirection)
          else if params.ignoreIfEntryCrossed && !entryInChannel scan six bars then .error (reject .entryNotInChannel)
          else .ok scan
    | _ => .error ⟨.insufficientPivots, some six.length, some n⟩

/-! ## The loops -/

structure Scan where
  outcomes : List ChannelSixScanOutcome
  overlapRanges : List (ℤ × ℤ)
  lastReject : ChannelSixReject
  /-- `break 'levels`, or the early return. -/
  done : Bool
  levels : ℕ

structure AnalyzeInput where
  bars : BarMap
  params : SixPivotScanParams
  allowedPatternIds : Option (List ℤ)
  windowFilter : ChannelSixWindowFilter
  pivotTailSkipMax : ℕ
  /-- Clamped to 1 .. 32. -/
  maxMatches : ℕ
  zigzagPivotCount : ℕ

/-- The bars of the first and the last pivot. -/
def barRange (six : List PivotTriple) : ℤ × ℤ :=
  (((six.map (·.bar)).min?).getD 0, ((six.map (·.bar)).max?).getD 0)

/-- A window that matched. -/
def Scan.found (s : Scan) (inp : AnalyzeInput) (outcome : ChannelSixScanOutcome) : Scan :=
  let outcomes := s.outcomes ++ [outcome]
  { s with
    outcomes := outcomes
    overlapRanges := if inp.windowFilter.avoidOverlap then s.overlapRanges ++ [barRange outcome.pivots] else s.overlapRanges
    done := outcomes.length ≥ inp.maxMatches }

/-- A type that is not allowed is remembered before any other reject. -/
def Scan.rejected (s : Scan) (e : ChannelSixReject) : Scan :=
  if e.code = .patternNotAllowed ∨ s.lastReject.code ≠ .patternNotAllowed then { s with lastReject := e } else s

def scanSkips (inp : AnalyzeInput) (zz : ZigzagLite Price R) : List ℕ → Scan → Scan
  | [], s => s
  | skip :: skips, s =>
    match nPivotsChronoTailSkip zz inp.params.numberOfPivots skip with
    | none => s
    | some six =>
      match tryScanSixWindow six inp.bars inp.params inp.allowedPatternIds
          { inp.windowFilter with existingRanges := s.overlapRanges } with
      | .ok scan =>
        let s := s.found inp ⟨scan, six, inp.zigzagPivotCount, skip, zz.level⟩
        if s.done then s else scanSkips inp zz skips s
      | .error e => scanSkips inp zz skips (s.rejected e)

/-- "Pine `getZigzagAndPattern`: `while(mlzigzag.zigzagPivots.size() >= 6+offset)`". -/
def pineZzFloor : ℕ := 6

def scanLevel (inp : AnalyzeInput) (zz : ZigzagLite Price R) (s : Scan) : Scan :=
  let s := { s with levels := s.levels + 1 }
  let need := inp.params.numberOfPivots
  let ch := pivotsChronological zz
  let minZz := max pineZzFloor need
  if ch.length < minZz then { s with lastReject := ⟨.insufficientPivots, some zz.pivots.length, some minZz⟩ }
  else
    let maxSkip := min inp.pivotTailSkipMax (ch.length - need)
    scanSkips inp zz (List.range (maxSkip + 1)) s

/-- At most `fuel` levels. -/
def scanLevels (inp : AnalyzeInput) : ℕ → ZigzagLite Price R → Scan → Scan
  | 0, _, s => s
  | fuel + 1, zz, s =>
    let s := scanLevel inp zz s
    if s.done then s
    else
      let zz := nextLevelFromZigzag f zz
      if zz.pivots.length < inp.params.numberOfPivots then s else scanLevels inp fuel zz s

/-- `0..=max_level_inclusive`. -/
def maxLevels (maxZigzagLevels : ℕ) : ℕ := (if maxZigzagLevels = 0 then 2 ^ 64 - 1 else maxZigzagLevels) + 1

structure ChannelSixAnalyzeResult where
  barCount : ℕ
  zigzagPivotCount : ℕ
  outcomes : List ChannelSixScanOutcome
  reject : Option ChannelSixReject

/-- The scan of all levels, from the base zigzag on. -/
def scanFromBars (bars : BarMap) (zigzagLength maxPivots zigzagOffset : ℕ) (params : SixPivotScanParams)
    (pivotTailSkipMax maxZigzagLevels : ℕ) (allowedPatternIds : Option (List ℤ)) (windowFilter : ChannelSixWindowFilter)
    (maxMatches : ℕ) : Scan :=
  let zz := zigzagFromOhlcBars f bars zigzagLength maxPivots zigzagOffset
  let inp : AnalyzeInput := ⟨bars, params, allowedPatternIds, windowFilter, pivotTailSkipMax, min (max maxMatches 1) 32,
    zz.pivots.length⟩
  scanLevels f inp (maxLevels maxZigzagLevels) zz ⟨[], windowFilter.existingRanges, reject .inspectLower, false, 0⟩

def analyzeChannelSixFromBars (bars : BarMap) (zigzagLength maxPivots zigzagOffset : ℕ) (params : SixPivotScanParams)
    (pivotTailSkipMax maxZigzagLevels : ℕ) (allowedPatternIds : Option (List ℤ)) (windowFilter : ChannelSixWindowFilter)
    (maxMatches : ℕ) : ChannelSixAnalyzeResult :=
  if bars.entries.length = 0 then
    ⟨0, 0, [], some ⟨.insufficientPivots, some 0, some params.numberOfPivots⟩⟩
  else
    let s := scanFromBars f bars zigzagLength maxPivots zigzagOffset params pivotTailSkipMax maxZigzagLevels
      allowedPatternIds windowFilter maxMatches
    ⟨bars.entries.length, (zigzagFromOhlcBars f bars zigzagLength maxPivots zigzagOffset).pivots.length, s.outcomes,
      if s.outcomes.isEmpty then some s.lastReject else none⟩

end Qtss.ChartPatterns
