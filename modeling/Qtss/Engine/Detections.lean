import Mathlib.Algebra.Order.Field.Rat
import Qtss.Json
import Qtss.Lib.Keyed
/-
# The tables `detections` and `market_bars`

| here | there |
| --- | --- |
| `DetectionKey`    | the constraint `detections_unique_span` (0215_detections_time_based_uniqueness.sql) |
| `Detection`       | the columns of 0214_elliott_detections_table.sql that are read here |
| `overwrite`, `keepInvalidated` | what the upserts of harmonic.rs:298 and range.rs:570, and of orb.rs:271, do `ON CONFLICT` |
| `anchorPrice`     | `anchor_price` (outcome_tracker_loop.rs:276), `anchor_by_label` (validators.rs:32) |
| `rawF64`          | `raw_f64` (outcome_tracker_loop.rs:293), `raw_meta_f64` (validators.rs:24) |
| `MarketBarRow`, `BarSeries` | market_bars.rs:13, and the rows of one series `ORDER BY open_time`, which is unique |

Floats are exact rationals. The time in an anchor is a text that nothing here reads: `rfc3339` gives it.
-/

namespace Qtss.Engine
open Keyed

structure Series where
  exchange : String
  segment : String
  symbol : String
  timeframe : String
deriving DecidableEq

structure DetectionKey where
  series : Series
  slot : ℤ
  patternFamily : String
  subkind : String
  startTime : DateTime
  endTime : DateTime
  mode : String
deriving DecidableEq

structure Detection where
  direction : ℤ
  startBar : ℤ
  endBar : ℤ
  anchors : Json
  invalidated : Bool
  rawMeta : Json

abbrev DetectionTable := HashMap DetectionKey Detection

structure MarketBarRow where
  openTime : DateTime
  high : ℚ
  low : ℚ
  close : ℚ
  volume : ℚ
deriving DecidableEq

structure BarSeries where
  bars : List MarketBarRow
  ascending : bars.Pairwise (·.openTime < ·.openTime)

/-- The bars with `open_time >= t`. -/
def BarSeries.since (s : BarSeries) (t : DateTime) : List MarketBarRow := s.bars.filter (t ≤ ·.openTime)

/-! ## Upserts -/

def overwrite (_ new : Detection) : Detection := new

def keepInvalidated (old new : Detection) : Detection := { new with invalidated := old.invalidated }

/-- `INSERT … ON CONFLICT … DO UPDATE`. -/
def DetectionTable.upsert (onConflict : Detection → Detection → Detection) (t : DetectionTable) (k : DetectionKey)
    (new : Detection) : DetectionTable :=
  t.insert k (match t.lookup k with
    | none => new
    | some old => onConflict old new)

theorem DetectionTable.lookup_upsert {onConflict : Detection → Detection → Detection} {t : DetectionTable}
    {k k' : DetectionKey} {new : Detection} :
    (t.upsert onConflict k new).lookup k' =
      if k' = k then some ((t.lookup k).elim new fun old => onConflict old new) else t.lookup k' := by
  rw [upsert, lookup_insert_eq]
  cases t.lookup k <;> rfl

/-! ## Anchors and meta -/

/-- The anchor with that label. -/
def isLabelled (label : String) (a : Json) : Bool :=
  let labelMatch := fun field => ((a.get field).bind Json.asStr).any (eqIgnoreAsciiCase · label)
  labelMatch "label_override" || labelMatch "label"

def priceOf (a : Json) : Option ℚ := (a.get "price").bind Json.asF64

def anchorPrice (anchors : Json) (label : String) : Option ℚ :=
  anchors.asArray.bind fun as => (as.find? (isLabelled label)).bind priceOf

def rawF64 (raw : Json) (key : String) : Option ℚ :=
  (raw.get key).bind fun v =>
    match v with
    | .int n => some n
    | .float q => some q
    | .str s => parseF64 s
    | _ => none

/-- An anchor with a label, as the writers give it. -/
def labelled (rfc3339 : DateTime → String) (label : String) (barIndex : ℤ) (price : ℚ) (time : DateTime) : Json :=
  .obj [("label_override", .str label), ("bar_index", .int barIndex), ("price", .float price),
    ("time", .str (rfc3339 time))]

variable {rfc3339 : DateTime → String} {label : String} {barIndex : ℤ} {price : ℚ} {time : DateTime}

@[simp] theorem priceOf_labelled : priceOf (labelled rfc3339 label barIndex price time) = some price := rfl

@[simp] theorem isLabelled_labelled (wanted : String) :
    isLabelled wanted (labelled rfc3339 label barIndex price time) = eqIgnoreAsciiCase label wanted := by
  simp [isLabelled, labelled, Json.get, List.lookup_cons]

end Qtss.Engine
