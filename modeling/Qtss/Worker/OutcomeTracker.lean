import Mathlib.Data.List.Sort
import Qtss.Engine.Detections
/-
# The outcome tracker (`qtss-worker/src/outcome_tracker_loop.rs`)

A tick takes a batch of detections without a final outcome and replays the bars of each against its stop and targets.

| here | there |
| --- | --- |
| `OutcomeKey`, `PatternOutcome` | the primary key and the columns of `pattern_outcomes` (0233_pattern_outcomes.sql); `target_json` is `target` |
| `entryPrice`, `resolveTargets` | outcome_tracker_loop.rs:112, :301 |
| `forwardBars`     | the query of :130 |
| `decision`, `walk` | the body and the loop of :167-206 |
| `evaluateOne`     | `evaluate_one` (:97), without the upsert |
| `batch`, `runTick` | the query of :63, and `run_tick` (:58) |

`fallback_atr_tp_mult` and `fallback_atr_sl_mult` are loaded, but `resolve_targets` does not read its configuration:
a row without a stop is skipped. A row whose bars cannot be read or whose upsert fails is left as it is (`reached`).
-/

namespace Qtss.Worker.Outcomes
open Engine Keyed

/-! ## Targets -/

structure Targets where
  entry : ℚ
  takeProfits : List ℚ
  stopLoss : ℚ
  direction : ℤ
deriving DecidableEq

def lastAnchorPrice (anchors : Json) : Option ℚ := (anchors.asArray.bind (·.getLast?)).bind priceOf

def entryPrice (anchors : Json) : Option ℚ :=
  (anchorPrice anchors "D").or ((anchorPrice anchors "Break").or ((anchorPrice anchors "G").or (lastAnchorPrice anchors)))

/-- "TP ladder from D back toward C", and the stop "beyond D by 2% of XA". -/
def harmonicTargets (anchors : Json) (direction : ℤ) : Option (List ℚ × Option ℚ) := do
  let c ← anchorPrice anchors "C"
  let d ← anchorPrice anchors "D"
  let cd := c - d
  let sl := do
    let x ← anchorPrice anchors "X"
    let a ← anchorPrice anchors "A"
    let sign := if direction ≥ 0 then -1 else 1
    return d + sign * |a - x| * (2 / 100)
  return ([d + 382 / 1000 * cd, d + 618 / 1000 * cd, d + cd], sl)

/-- The stop of the generic path. -/
def invalidationOf (rawMeta : Json) : Option ℚ :=
  (rawF64 rawMeta "invalidation").or ((rawF64 rawMeta "invalidation_price").or
    ((rawF64 rawMeta "or_low").or (rawF64 rawMeta "or_high")))

def genericTargets (rawMeta : Json) (direction : ℤ) (entry : ℚ) : List ℚ × Option ℚ :=
  match invalidationOf rawMeta with
  | some sl =>
    let risk := |entry - sl|
    if risk > 0 then
      let sign := if direction ≥ 0 then 1 else -1
      ([entry + sign * risk, entry + sign * risk * 2, entry + sign * risk * 3], some sl)
    else ([], none)
  | none => ([], none)

def resolveTargets (family : String) (anchors rawMeta : Json) (direction : ℤ) (entry : ℚ) : List ℚ × Option ℚ :=
  match if family = "harmonic" then harmonicTargets anchors direction else none with
  | some targets => targets
  | none => genericTargets rawMeta direction entry

/-- What a detection is graded against; `none` is "can't grade". -/
def targetsOf (k : DetectionKey) (d : Detection) : Option Targets := do
  let entry ← entryPrice d.anchors
  let (takeProfits, sl) := resolveTargets k.patternFamily d.anchors d.rawMeta d.direction entry
  return ⟨entry, takeProfits, ← sl, d.direction⟩

/-! ## Replay -/

inductive OutcomeKind where
  | tp1Hit | tp2Hit | tp3Hit | slHit | expired | active
deriving DecidableEq, Repr

def OutcomeKind.asStr : OutcomeKind → String
  | .tp1Hit => "tp1_hit"
  | .tp2Hit => "tp2_hit"
  | .tp3Hit => "tp3_hit"
  | .slHit => "sl_hit"
  | .expired => "expired"
  | .active => "active"

/-- What a bar decides. -/
structure Decision where
  kind : OutcomeKind
  tpHitCount : ℕ
  price : ℚ
deriving DecidableEq

structure Hit extends Decision where
  bar : ℕ
  time : DateTime
deriving DecidableEq

def Targets.favorable (t : Targets) (bar : MarketBarRow) : ℚ :=
  if t.direction ≥ 0 then bar.high - t.entry else t.entry - bar.low

def Targets.adverse (t : Targets) (bar : MarketBarRow) : ℚ :=
  if t.direction ≥ 0 then t.entry - bar.low else bar.high - t.entry

def Targets.slTouched (t : Targets) (bar : MarketBarRow) : Bool :=
  if t.direction ≥ 0 then bar.low ≤ t.stopLoss else bar.high ≥ t.stopLoss

def Targets.reached (t : Targets) (bar : MarketBarRow) (tp : ℚ) : Bool :=
  if t.direction ≥ 0 then bar.high ≥ tp else bar.low ≤ tp

/-- The last level of the ladder that is reached, counted from 1. -/
def Targets.hitLevel (t : Targets) (bar : MarketBarRow) : ℕ :=
  t.takeProfits.zipIdx.foldl (fun level tp => if t.reached bar tp.1 then tp.2 + 1 else level) 0

/-- "Check SL first (conservative)". -/
def Targets.decision (t : Targets) (bar : MarketBarRow) : Option Decision :=
  if t.slTouched bar then some ⟨.slHit, 0, t.stopLoss⟩
  else
    match t.hitLevel bar with
    | 0 => none
    | level + 1 =>
      let kind : OutcomeKind := match level with
        | 0 => .tp1Hit
        | 1 => .tp2Hit
        | _ => .tp3Hit
      some ⟨kind, level + 1, t.takeProfits[level]?.getD bar.close⟩

/-- "Walk bars, first hit wins": the hit if there is one, and `mfe` and `mae`. -/
def walk (t : Targets) : ℕ → ℚ → ℚ → List MarketBarRow → Option Hit × ℚ × ℚ
  | _, mfe, mae, [] => (none, mfe, mae)
  | idx, mfe, mae, bar :: bars =>
    let mfe := max mfe (t.favorable bar)
    let mae := max mae (t.adverse bar)
    match t.decision bar with
    | some decision => (some ⟨decision, idx, bar.openTime⟩, mfe, mae)
    | none => walk t (idx + 1) mfe mae bars

/-! ## One detection -/

structure OutcomeKey where
  series : Series
  slot : ℤ
  patternFamily : String
  subkind : String
  startTime : DateTime
  mode : String
deriving DecidableEq

structure PatternOutcome where
  outcome : OutcomeKind
  tpHitCount : ℕ
  barsToOutcome : Option ℕ
  outcomeTime : Option DateTime
  outcomePrice : Option ℚ
  mfe : ℚ
  mae : ℚ
  target : Targets
deriving DecidableEq

/-- A `LIMIT` below zero is an error, and an error is no bars. -/
def forwardBars (ttlBars : ℤ) (startTime : DateTime) (bars : BarSeries) : List MarketBarRow :=
  (bars.since startTime).take (ttlBars + 1).toNat

def gradeBars (ttlBars : ℤ) (t : Targets) (bars : List MarketBarRow) : PatternOutcome :=
  match walk t 0 0 0 bars with
  | (some hit, mfe, mae) => ⟨hit.kind, hit.tpHitCount, some hit.bar, some hit.time, some hit.price, mfe, mae, t⟩
  | (none, mfe, mae) => ⟨if bars.length ≥ ttlBars then .expired else .active, 0, none, none, none, mfe, mae, t⟩

/-- `none` leaves no trace. -/
def evaluateOne (ttlBars : ℤ) (k : DetectionKey) (d : Detection) (bars : BarSeries) : Option PatternOutcome := do
  let t ← targetsOf k d
  let forward := forwardBars ttlBars k.startTime bars
  if forward.isEmpty then none else some (gradeBars ttlBars t forward)

/-! ## A tick -/

structure TrackerConfig where
  batchSize : ℕ
  expiryByFamily : List (String × ℤ)

def TrackerConfig.ttlBars (cfg : TrackerConfig) (family : String) : ℤ := (cfg.expiryByFamily.lookup family).getD 200

def OutcomeKey.of (k : DetectionKey) : OutcomeKey :=
  ⟨k.series, k.slot, k.patternFamily, k.subkind, k.startTime, k.mode⟩

abbrev OutcomeTable := HashMap OutcomeKey PatternOutcome

structure TrackerInput where
  cfg : TrackerConfig
  now : DateTime
  bars : Series → BarSeries
  /-- The bars of the row can be read and its outcome written. -/
  reached : DetectionKey → Bool

def ninetyDays : DateTime := 90 * 24 * 3600

/-- `o.outcome IS NULL`. -/
def unseen (t : OutcomeTable) (k : DetectionKey) : Bool := (t.lookup (OutcomeKey.of k)).isNone

/-- The `WHERE`. -/
def isCandidate (now : DateTime) (t : OutcomeTable) (k : DetectionKey) : Bool :=
  k.series.timeframe != "*" && (t.lookup (OutcomeKey.of k)).all (·.outcome == .active) &&
    decide (k.startTime > now - ninetyDays)

/-- The `ORDER BY`. -/
def Before (t : OutcomeTable) (a b : DetectionKey × Detection) : Prop :=
  (unseen t a.1 = true ∧ unseen t b.1 = false) ∨ (unseen t a.1 = unseen t b.1 ∧ a.1.startTime ≤ b.1.startTime)

instance (t : OutcomeTable) : DecidableRel (Before t) := fun _ _ => inferInstanceAs (Decidable (_ ∨ _))

/-- The rows of the table. -/
def rowsOf (detections : DetectionTable) : List (DetectionKey × Detection) := detections.entries.map fun e => (e.1, e.2)

/-- The `LIMIT`. Of rows with one `start_time` the query promises no order; they come in that of the table. -/
def batch (cfg : TrackerConfig) (now : DateTime) (detections : DetectionTable) (t : OutcomeTable) :
    List (DetectionKey × Detection) :=
  (((rowsOf detections).filter fun r => isCandidate now t r.1).insertionSort (Before t)).take cfg.batchSize

/-- The outcome that the tick writes for a row of its batch. -/
def graded (i : TrackerInput) (r : DetectionKey × Detection) : Option (DetectionKey × PatternOutcome) :=
  if i.reached r.1 then
    (evaluateOne (i.cfg.ttlBars r.1.patternFamily) r.1 r.2 (i.bars r.1.series)).map fun o => (r.1, o)
  else none

/-- The upserts of a tick. -/
def writes (i : TrackerInput) (detections : DetectionTable) (t : OutcomeTable) : List (DetectionKey × PatternOutcome) :=
  (batch i.cfg i.now detections t).filterMap (graded i)

def upsertOutcome (t : OutcomeTable) (w : DetectionKey × PatternOutcome) : OutcomeTable := t.insert (OutcomeKey.of w.1) w.2

/-- outcome_tracker_loop.rs:58. -/
def runTick (i : TrackerInput) (detections : DetectionTable) (t : OutcomeTable) : OutcomeTable :=
  (writes i detections t).foldl upsertOutcome t

/-! ## The walk -/

variable {t : Targets} {idx : ℕ} {mfe mae : ℚ} {bars more : List MarketBarRow} {ttlBars : ℤ}

/-- No bar decides. -/
def Undecided (t : Targets) (bars : List MarketBarRow) : Prop := ∀ b ∈ bars, t.decision b = none

/-- After the first bar that decides nothing matters. -/
theorem walk_decided_append (h : ¬ Undecided t bars) :
    walk t idx mfe mae (bars ++ more) = walk t idx mfe mae bars := by
  induction bars generalizing idx mfe mae with
  | nil => exact absurd (fun _ hb => nomatch hb) h
  | cons b bs ih =>
    rw [List.cons_append, walk, walk]
    cases hb : t.decision b with
    | some decision => rfl
    | none =>
      refine ih fun hbs => h ?_
      exact List.forall_mem_cons.2 ⟨hb, hbs⟩

theorem walk_ne_none {excursions : ℚ × ℚ} (h : ¬ Undecided t bars) : walk t idx mfe mae bars ≠ (none, excursions) := by
  induction bars generalizing idx mfe mae with
  | nil => exact absurd (fun _ hb => nomatch hb) h
  | cons b bs ih =>
    rw [walk]
    cases hb : t.decision b with
    | some decision => exact nofun
    | none => exact ih fun hbs => h (List.forall_mem_cons.2 ⟨hb, hbs⟩)

theorem le_walk_mae : mae ≤ (walk t idx mfe mae bars).2.2 := by
  induction bars generalizing idx mfe mae with
  | nil => exact le_rfl
  | cons b bs ih =>
    rw [walk]
    cases t.decision b with
    | some decision => exact le_max_left _ _
    | none => exact (le_max_left _ _).trans ih

/-- The first bar counts, whatever it decides. -/
theorem adverse_le_walk_mae {b : MarketBarRow} : t.adverse b ≤ (walk t idx mfe mae (b :: bars)).2.2 := by
  rw [walk]
  cases t.decision b with
  | some decision => exact le_max_right _ _
  | none => exact (le_max_right _ _).trans le_walk_mae

theorem walk_mae_le {m : ℚ} (hmae : mae ≤ m) (h : ∀ b ∈ bars, t.adverse b ≤ m) :
    (walk t idx mfe mae bars).2.2 ≤ m := by
  induction bars generalizing idx mfe mae with
  | nil => exact hmae
  | cons b bs ih =>
    obtain ⟨hb, hbs⟩ := List.forall_mem_cons.1 h
    rw [walk]
    cases t.decision b with
    | some decision => exact max_le hmae hb
    | none => exact ih (max_le hmae hb) hbs

@[simp] theorem gradeBars_mae : (gradeBars ttlBars t bars).mae = (walk t 0 0 0 bars).2.2 := by
  unfold gradeBars
  split
  next h => rw [h]
  next h => rw [h]

/-! ## The skip paths -/

variable (ttlBars) in
theorem forwardBars_isEmpty (startTime : DateTime) (s : BarSeries) :
    (forwardBars ttlBars startTime s).isEmpty = true ↔ s.since startTime = [] ∨ ttlBars < 0 := by
  rw [forwardBars, List.isEmpty_iff, List.take_eq_nil_iff, or_comm]
  exact or_congr_right (by omega)

/-- A row leaves a trace exactly when it has targets and a bar, and may look at one. -/
theorem isSome_evaluateOne {k : DetectionKey} {d : Detection} {s : BarSeries} :
    (evaluateOne ttlBars k d s).isSome ↔ (targetsOf k d).isSome ∧ s.since k.startTime ≠ [] ∧ 0 ≤ ttlBars := by
  unfold evaluateOne
  cases targetsOf k d with
  | none => simp
  | some t =>
    simp only [Option.bind_eq_bind, Option.bind_some, Option.isSome_some, true_and]
    have hempty_iff := forwardBars_isEmpty ttlBars k.startTime s
    split
    next hempty =>
      rcases hempty_iff.1 hempty with h | h
      · simp [h]
      · simp [not_le.2 h]
    next hfull =>
      obtain ⟨hbars, httl⟩ := not_or.1 (mt hempty_iff.2 hfull)
      simp [hbars, not_lt.1 httl]

end Qtss.Worker.Outcomes
