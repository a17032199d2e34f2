import Qtss.Engine.Detections
import Qtss.Storage.FillLongEstimate
/-
# The rows of the range writer (`qtss-engine/src/writers/range.rs`)

| here | there |
| --- | --- |
| `FvgMatch`, `OrderBlockMatch`, `LiquidityPoolMatch`, `EqualLevelMatch` | what the detectors of `qtss-range` return |
| `RangeBars`       | the bars of the tick: their times, and `Utc::now` for a bar that is not there |
| `directionFromSubkind` | range.rs:363 |
| `writeMatchFvg`, … | `write_match_fvg` (:201), `write_match_ob` (:236), `write_match_lp` (:270), `write_match_el` (:306) |
| `rangeDetection`  | the row that `upsert_range` (:537) is given |

None of them has an invalidation in its meta.
-/

namespace Qtss.Engine
open Storage.FillLongEstimate (toAsciiLowercase)

structure FvgMatch where
  subkind : String
  barIndex : ℤ
  gapHigh : ℚ
  gapLow : ℚ
  gapSize : ℚ
  gapAtrRatio : ℚ
  filled : Bool
  fillPct : ℚ
  score : ℚ
  volumeConfirmed : Bool

structure OrderBlockMatch where
  subkind : String
  barIndex : ℤ
  obHigh : ℚ
  obLow : ℚ
  impulseSize : ℚ
  impulseAtrRatio : ℚ
  mitigated : Bool
  score : ℚ
  volumeConfirmed : Bool

structure LiquidityPoolMatch where
  subkind : String
  level : ℚ
  touches : ℕ
  pivotBars : List ℤ
  swept : Bool
  reclaimed : Bool
  score : ℚ

structure EqualLevelMatch where
  subkind : String
  level : ℚ
  count : ℕ
  pivotBars : List ℤ
  maxDiff : ℚ
  priceNear : Bool
  score : ℚ

/-- What a detector finds. -/
inductive RangeMatch where
  | fvg (m : FvgMatch)
  | orderBlock (m : OrderBlockMatch)
  | liquidityPool (m : LiquidityPoolMatch)
  | equalLevels (m : EqualLevelMatch)

structure RangeBars where
  times : List DateTime
  now : DateTime

def RangeBars.barTime (rows : RangeBars) (idx : ℤ) : DateTime := rows.times[(max idx 0).toNat]?.getD rows.now

def directionFromSubkind (subkind : String) : ℤ :=
  let s := toAsciiLowercase subkind
  if s.startsWith "bullish_" || s == "equal_lows" || s == "liquidity_pool_low" then 1
  else if s.startsWith "bearish_" || s == "equal_highs" || s == "liquidity_pool_high" then -1
  else 0

section rows
variable (rfc3339 : DateTime → String) (series : Series) (rows : RangeBars)

def barAnchor (barIndex : ℤ) (price : ℚ) (label : String) : Json :=
  labelled rfc3339 label barIndex price (rows.barTime barIndex)

def rangeDetection (subFamily subkind : String) (startBar endBar : ℤ) (anchors : List Json) (invalidated : Bool)
    (rawMeta : List (String × Json)) : DetectionKey × Detection :=
  ({ series := series, slot := 0, patternFamily := "range", subkind := subFamily ++ ":" ++ subkind
     startTime := rows.barTime startBar, endTime := rows.barTime endBar, mode := "live" },
   { direction := directionFromSubkind subkind, startBar := startBar, endBar := endBar, anchors := .arr anchors
     invalidated := invalidated, rawMeta := .obj rawMeta })

def writeMatchFvg (m : FvgMatch) : DetectionKey × Detection :=
  rangeDetection series rows "fvg" m.subkind m.barIndex m.barIndex
    [barAnchor rfc3339 rows m.barIndex m.gapHigh "gap_high", barAnchor rfc3339 rows m.barIndex m.gapLow "gap_low"]
    m.filled
    [("score", .float m.score), ("gap_size", .float m.gapSize), ("gap_atr_ratio", .float m.gapAtrRatio),
      ("filled", .bool m.filled), ("fill_pct", .float m.fillPct), ("volume_confirmed", .bool m.volumeConfirmed)]

def writeMatchOb (m : OrderBlockMatch) : DetectionKey × Detection :=
  rangeDetection series rows "order_block" m.subkind m.barIndex m.barIndex
    [barAnchor rfc3339 rows m.barIndex m.obHigh "ob_high", barAnchor rfc3339 rows m.barIndex m.obLow "ob_low"]
    m.mitigated
    [("score", .float m.score), ("impulse_size", .float m.impulseSize),
      ("impulse_atr_ratio", .float m.impulseAtrRatio), ("mitigated", .bool m.mitigated),
      ("volume_confirmed", .bool m.volumeConfirmed)]

def writeMatchLp (m : LiquidityPoolMatch) : DetectionKey × Detection :=
  let startBar := m.pivotBars.head?.getD 0
  rangeDetection series rows "liquidity_pool" m.subkind startBar (m.pivotBars.getLast?.getD startBar)
    (m.pivotBars.map fun b => barAnchor rfc3339 rows b m.level "pool") (m.swept && !m.reclaimed)
    [("score", .float m.score), ("touches", .int m.touches), ("swept", .bool m.swept), ("reclaimed", .bool m.reclaimed)]

def writeMatchEl (m : EqualLevelMatch) : DetectionKey × Detection :=
  let startBar := m.pivotBars.head?.getD 0
  rangeDetection series rows "equal_levels" m.subkind startBar (m.pivotBars.getLast?.getD startBar)
    (m.pivotBars.map fun b => barAnchor rfc3339 rows b m.level "eq") false
    [("score", .float m.score), ("count", .int m.count), ("max_diff", .float m.maxDiff),
      ("price_near", .bool m.priceNear)]

def rangeRow : RangeMatch → DetectionKey × Detection
  | .fvg m => writeMatchFvg rfc3339 series rows m
  | .orderBlock m => writeMatchOb rfc3339 series rows m
  | .liquidityPool m => writeMatchLp rfc3339 series rows m
  | .equalLevels m => writeMatchEl rfc3339 series rows m

end rows

end Qtss.Engine
