import Qtss.Engine.Harmonic
import Qtss.Engine.Orb
import Qtss.Engine.RangeRows
/-
# The validator loop and the writers (`qtss-worker/src/validator_loop.rs`, `qtss-validator`)

| here | there |
| --- | --- |
| `ValidatorConfig`, `InvalidationReason` | config.rs, verdict.rs |
| `HarmonicValidator.validate`, … | validators.rs: `none` is `Hold`; the ATR and `orb_reentry_bars` are read by none |
| `validate`        | `ValidatorRegistry::validate` (registry.rs:38) with the validators of `default_registry` |
| `invalidate`      | the UPDATE of validator_loop.rs:116 |
| `Board`, `step`   | the table under the two loops: a step reads the rows of a series, updates one, or emits one |

The writers are the harmonic, the range and the opening range writer, with whatever they match. The rows that the
validator reads and those that it updates are of two statements, and the writers come in between.
-/

namespace Qtss.Worker.Validator
open Engine Keyed

/-! ## Validators -/

structure ValidatorConfig where
  harmonicBreakPct : ℚ
  rangeFullFillPct : ℚ
  gapClosePct : ℚ
  motiveWave1BufferPct : ℚ
  smcBreakBufferPct : ℚ
  classicalBreakPct : ℚ

inductive InvalidationReason where
  | geometryBroken | zoneFilled | gapClosed | reEntryFakeout | structuralBreak | timeExpired | otherFamilyRule
deriving DecidableEq, Repr

def InvalidationReason.asStr : InvalidationReason → String
  | .geometryBroken => "geometry_broken"
  | .zoneFilled => "zone_filled"
  | .gapClosed => "gap_closed"
  | .reEntryFakeout => "re_entry_fakeout"
  | .structuralBreak => "structural_break"
  | .timeExpired => "time_expired"
  | .otherFamilyRule => "other_family_rule"

/-- The price is on the wrong side of a level: below it for a bullish pattern. -/
def broken (direction : ℤ) (price level tol : ℚ) : Bool :=
  if direction ≥ 0 then price < level - tol else price > level + tol

/-- "price closes beyond PRZ by > `harmonic_break_pct`". -/
def HarmonicValidator.validate (cfg : ValidatorConfig) (row : Detection) (price : ℚ) : Option InvalidationReason := do
  let d ← anchorPrice row.anchors "D"
  let x ← anchorPrice row.anchors "X"
  let a ← anchorPrice row.anchors "A"
  if broken row.direction price d (|a - x| * cfg.harmonicBreakPct) then some .geometryBroken else none

def ClassicalValidator.validate (cfg : ValidatorConfig) (row : Detection) (price : ℚ) : Option InvalidationReason := do
  let inv ← rawF64 row.rawMeta "invalidation"
  if broken row.direction price inv (|price| * cfg.classicalBreakPct) then some .geometryBroken else none

/-- The zone is that of the first two anchors. -/
def RangeValidator.validate (cfg : ValidatorConfig) (row : Detection) (price : ℚ) : Option InvalidationReason :=
  match row.anchors.asArray with
  | some (first :: second :: _) =>
    let p0 := (priceOf first).getD 0
    let p1 := (priceOf second).getD 0
    let top := max p0 p1
    let bot := min p0 p1
    let height := max (top - bot) (1 / 10 ^ 9)
    let traversed := if row.direction ≥ 0 then (price - bot) / height else (top - price) / height
    if traversed ≥ cfg.rangeFullFillPct then some .zoneFilled else none
  | _ => none

def GapValidator.validate (cfg : ValidatorConfig) (row : Detection) (price : ℚ) : Option InvalidationReason := do
  let inv ← rawF64 row.rawMeta "invalidation_price"
  let closed : Bool := if row.direction ≥ 0 then price ≤ inv else price ≥ inv
  let margin := inv * (1 - cfg.gapClosePct)
  let broken : Bool := if row.direction ≥ 0 then price ≤ inv + |margin| else price ≥ inv - |margin|
  if closed || broken then some .gapClosed else none

def MotiveValidator.validate (cfg : ValidatorConfig) (row : Detection) (price : ℚ) : Option InvalidationReason := do
  let anchors ← row.anchors.asArray
  let wave1 ← anchors[1]?.bind priceOf
  if broken row.direction price wave1 (|wave1| * cfg.motiveWave1BufferPct) then some .structuralBreak else none

def SmcValidator.validate (cfg : ValidatorConfig) (row : Detection) (price : ℚ) : Option InvalidationReason := do
  let inv ← rawF64 row.rawMeta "invalidation_price"
  if broken row.direction price inv (|inv| * cfg.smcBreakBufferPct) then some .geometryBroken else none

/-- "close back inside OR after break". -/
def OrbValidator.validate (row : Detection) (price : ℚ) : Option InvalidationReason := do
  let orHigh ← rawF64 row.rawMeta "or_high"
  let orLow ← rawF64 row.rawMeta "or_low"
  if price > orLow ∧ price < orHigh then some .reEntryFakeout else none

def validate (cfg : ValidatorConfig) (family : String) (row : Detection) (price : ℚ) : Option InvalidationReason :=
  match family with
  | "harmonic" => HarmonicValidator.validate cfg row price
  | "classical" => ClassicalValidator.validate cfg row price
  | "range" => RangeValidator.validate cfg row price
  | "gap" => GapValidator.validate cfg row price
  | "motive" => MotiveValidator.validate cfg row price
  | "smc" => SmcValidator.validate cfg row price
  | "orb" => OrbValidator.validate row price
  | _ => none

/-! ## The table under the two loops -/

/-- `jsonb || jsonb_build_object(…)`: a value that is no object becomes an element of an array. -/
def jsonbConcat (v : Json) (fields : List (String × Json)) : Json :=
  match v with
  | .obj _ => fields.foldl (fun v f => v.set f.1 f.2) v
  | .arr xs => .arr (xs ++ [.obj fields])
  | v => .arr [v, .obj fields]

def invalidated (reason : InvalidationReason) (now : String) (d : Detection) : Detection :=
  { d with
    invalidated := true
    rawMeta := jsonbConcat d.rawMeta [("invalidation_reason", .str reason.asStr), ("invalidated_at", .str now)] }

/-- `UPDATE detections … WHERE … AND invalidated=false`. -/
def invalidate (t : DetectionTable) (k : DetectionKey) (reason : InvalidationReason) (now : String) : DetectionTable :=
  adjust (fun d => if d.invalidated then d else invalidated reason now d) k t

/-- What a writer emits. -/
inductive Emission where
  | harmonic (series : Series) (slot : ℤ) (w : Window) (spec : HarmonicSpec) (score : ℚ)
  | range (series : Series) (rows : RangeBars) (m : RangeMatch)
  | orb (cfg : OrbConfig) (series : Series) (avgVol : ℚ) (r : OpeningRange) (j : ℕ) (bar : MarketBarRow)
      (side : Breakout)

def Emission.row (rfc3339 : DateTime → String) : Emission → DetectionKey × Detection
  | .harmonic series slot w spec score => harmonicDetection rfc3339 series slot w spec score
  | .range series rows m => rangeRow rfc3339 series rows m
  | .orb cfg series avgVol r j bar side => orbDetection rfc3339 cfg series avgVol r j bar side

def Emission.onConflict : Emission → Detection → Detection → Detection
  | .orb .. => keepInvalidated
  | _ => overwrite

structure Board where
  detections : DetectionTable
  /-- What the validator still has to update, of the series that it has read. -/
  pending : List (DetectionKey × InvalidationReason)
  /-- What it has invalidated. -/
  latched : List (DetectionKey × InvalidationReason)

def Board.start : Board := ⟨∅, [], []⟩

inductive Op where
  /-- The validator comes to a series, whose last close is `price`. -/
  | read (series : Series) (cfg : ValidatorConfig) (price : ℚ)
  | update (ok : Bool) (now : String)
  | emit (e : Emission)

variable (rfc3339 : DateTime → String)

/-- The rows of a series that are not invalidated, with a verdict against them. -/
def verdicts (t : DetectionTable) (series : Series) (cfg : ValidatorConfig) (price : ℚ) :
    List (DetectionKey × InvalidationReason) :=
  t.entries.filterMap fun e =>
    if e.1.series = series ∧ series.timeframe ≠ "*" ∧ e.2.invalidated = false then
      (validate cfg e.1.patternFamily e.2 price).map fun reason => (e.1, reason)
    else none

/-- The UPDATE finds a row. -/
def Finds (t : DetectionTable) (k : DetectionKey) : Bool := (t.lookup k).any fun d => !d.invalidated

def step (s : Board) : Op → Board
  | .read series cfg price => { s with pending := verdicts s.detections series cfg price }
  | .update ok now =>
    match s.pending with
    | [] => s
    | (k, reason) :: rest =>
      if ok && Finds s.detections k then
        ⟨invalidate s.detections k reason now, rest, (k, reason) :: s.latched⟩
      else { s with pending := rest }
  | .emit e => { s with detections := s.detections.upsert e.onConflict (e.row rfc3339).1 (e.row rfc3339).2 }

/-! ## Reasons -/

def reasonOf (d : Detection) : Option String := (d.rawMeta.get "invalidation_reason").bind Json.asStr

def IsObj (v : Json) : Prop := ∃ fields, v = .obj fields

/-- The reason is recorded where the meta is an object. -/
theorem reasonOf_invalidated {d : Detection} {reason : InvalidationReason} {now : String} (h : IsObj d.rawMeta) :
    reasonOf (invalidated reason now d) = some reason.asStr := by
  obtain ⟨fields, hfields⟩ := h
  simp only [reasonOf, invalidated, hfields, jsonbConcat, List.foldl_cons, List.foldl_nil]
  rw [get_set_ne (by decide)]
  rfl

theorem isObj_invalidated {d : Detection} {reason : InvalidationReason} {now : String} (h : IsObj d.rawMeta) :
    IsObj (invalidated reason now d).rawMeta := by
  obtain ⟨fields, hfields⟩ := h
  simp only [invalidated, hfields, jsonbConcat]
  exact ⟨_, rfl⟩

/-- A writer emits an object without a reason. -/
theorem reasonOf_row (e : Emission) : reasonOf (e.row rfc3339).2 = none ∧ IsObj (e.row rfc3339).2.rawMeta := by
  cases e with
  | range series rows m => cases m <;> exact ⟨rfl, _, rfl⟩
  | _ => exact ⟨rfl, _, rfl⟩

end Qtss.Worker.Validator
