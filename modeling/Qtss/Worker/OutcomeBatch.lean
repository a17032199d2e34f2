import Qtss.Engine.Orb
import Qtss.Engine.RangeRows
import Qtss.Lib.Runs
import Qtss.Worker.OutcomeTracker
/-
# Which detections the outcome tracker gets to

The batch is the head of an order that does not know what can be graded, and a row that cannot be is skipped without a
trace: it is at the head of the next batch as well. The rows of the range writer are of that kind, and so is every row
without an invalidation, as the "ATR bands when nothing else fits" are never used. `progress_iff` says when a tick
grades a row that waits; a tick that grades none is followed by none that does.
-/

namespace Qtss.Worker.Outcomes
open Engine Keyed Runs

/-- An entry, a stop, and a bar from `start_time` on. -/
def Gradable (i : TrackerInput) (r : DetectionKey × Detection) : Prop :=
  (targetsOf r.1 r.2).isSome ∧ (i.bars r.1.series).since r.1.startTime ≠ []

instance (i : TrackerInput) : DecidablePred (Gradable i) := fun _ => inferInstanceAs (Decidable (_ ∧ _))

/-- It has no final outcome yet, and can be graded. -/
def Waits (i : TrackerInput) (t : OutcomeTable) (r : DetectionKey × Detection) : Prop :=
  isCandidate i.now t r.1 = true ∧ Gradable i r

instance (i : TrackerInput) (t : OutcomeTable) : DecidablePred (Waits i t) := fun _ =>
  inferInstanceAs (Decidable (_ ∧ _))

/-- If a row waits, the tick writes the outcome of one that does. -/
def Progresses (i : TrackerInput) (detections : DetectionTable) (t : OutcomeTable) : Prop :=
  (∃ r ∈ rowsOf detections, Waits i t r) →
    ∃ r ∈ rowsOf detections, Waits i t r ∧ ∃ w ∈ writes i detections t, w.1 = r.1

/-- The tick can grade the row: its family has a cap that is not below zero, and nothing fails. -/
def InReach (i : TrackerInput) (r : DetectionKey × Detection) : Prop :=
  Gradable i r ∧ 0 ≤ i.cfg.ttlBars r.1.patternFamily ∧ i.reached r.1 = true

instance (i : TrackerInput) : DecidablePred (InReach i) := fun _ => inferInstanceAs (Decidable (_ ∧ _ ∧ _))

/-- If a row waits, one that the tick can grade is among the first `batch_size`. -/
def InBatch (i : TrackerInput) (detections : DetectionTable) (t : OutcomeTable) : Prop :=
  (∃ r ∈ rowsOf detections, Waits i t r) → ∃ r ∈ batch i.cfg i.now detections t, InReach i r

variable {i : TrackerInput} {detections : DetectionTable} {t : OutcomeTable} {r : DetectionKey × Detection}

theorem mem_batch (h : r ∈ batch i.cfg i.now detections t) :
    r ∈ rowsOf detections ∧ isCandidate i.now t r.1 = true := by
  have hsorted := (List.mem_insertionSort _).1 (List.mem_of_mem_take h)
  exact List.mem_filter.1 hsorted

theorem isSome_graded : (graded i r).isSome ↔ InReach i r := by
  unfold graded InReach Gradable
  split
  next hreached => simp [isSome_evaluateOne, hreached, and_assoc]
  next hreached => simp [hreached]

theorem fst_of_graded {w : DetectionKey × PatternOutcome} (h : graded i r = some w) : w.1 = r.1 := by
  unfold graded at h
  split at h
  next =>
    obtain ⟨o, -, rfl⟩ := Option.map_eq_some_iff.1 h
    rfl
  next => cases h

/-- **What a tick writes**: outcomes of the rows of its batch that it can grade. -/
theorem exists_writes_iff {k : DetectionKey} :
    (∃ w ∈ writes i detections t, w.1 = k) ↔ ∃ r ∈ batch i.cfg i.now detections t, InReach i r ∧ r.1 = k := by
  constructor
  · rintro ⟨w, hw, rfl⟩
    obtain ⟨r, hr, hgraded⟩ := List.mem_filterMap.1 hw
    exact ⟨r, hr, isSome_graded.1 (Option.isSome_of_mem hgraded), (fst_of_graded hgraded).symm⟩
  · rintro ⟨r, hr, hreach, rfl⟩
    obtain ⟨w, hw⟩ := Option.isSome_iff_exists.1 (isSome_graded.2 hreach)
    exact ⟨w, List.mem_filterMap.2 ⟨r, hr, hw⟩, fst_of_graded hw⟩

theorem progresses_iff : Progresses i detections t ↔ InBatch i detections t := by
  refine imp_congr_right fun _ => ?_
  simp only [exists_writes_iff]
  constructor
  · rintro ⟨-, -, -, r, hr, hreach, -⟩
    exact ⟨r, hr, hreach⟩
  · rintro ⟨r, hr, hreach⟩
    obtain ⟨hrow, hcandidate⟩ := mem_batch hr
    exact ⟨r, hrow, ⟨hcandidate, hreach.1⟩, r, hr, hreach, rfl⟩

/-- A tick with nothing to grade in its batch does nothing, and neither does the next one. -/
theorem runTick_of_none (h : ∀ r ∈ batch i.cfg i.now detections t, ¬ InReach i r) : runTick i detections t = t := by
  have hnone : writes i detections t = [] := by
    refine List.filterMap_eq_nil_iff.2 fun r hr => ?_
    rw [← Option.not_isSome_iff_eq_none, isSome_graded]
    exact h r hr
  rw [runTick, hnone, List.foldl_nil]

/-- `n` ticks over the same detections and bars. -/
def ticks (i : TrackerInput) (detections : DetectionTable) (n : ℕ) (t : OutcomeTable) : OutcomeTable :=
  run (fun t (_ : Unit) => runTick i detections t) t (List.replicate n ())

theorem ticks_of_none (h : ∀ r ∈ batch i.cfg i.now detections t, ¬ InReach i r) (n : ℕ) :
    ticks i detections n t = t := by
  have hstays : ∀ s (_ : Unit), s = t → True → runTick i detections s = t := by
    rintro s - rfl -
    exact runTick_of_none h
  exact run_invariant (J := (· = t)) (K := fun _ => True) hstays rfl fun _ _ => trivial

/-- **Progress of the tracker**: a tick writes the outcome of a row that waits, whenever there is one, exactly when a
row that it can grade is in its batch, whatever the order of rows with one `start_time`. And where none is, no tick over
the same tables ever writes anything, as long as the query keeps that order. -/
theorem progress_iff (i : TrackerInput) (detections : DetectionTable) (t : OutcomeTable) :
    (Progresses i detections t ↔ InBatch i detections t) ∧
    ((∀ r ∈ batch i.cfg i.now detections t, ¬ InReach i r) → ∀ n, ticks i detections n t = t) :=
  ⟨progresses_iff, ticks_of_none⟩

/-! ## Range rows in front -/

def btcUsdt : Series := ⟨"binance", "futures", "BTCUSDT", "15m"⟩

/-- Two highs at 110, a bar apart. -/
def equalHighs : DetectionKey × Detection :=
  rangeRow (fun _ => "") btcUsdt ⟨[84600, 85500, 86400], 90000⟩
    (.equalLevels ⟨"equal_highs", 110, 2, [0, 1], 0, true, 3 / 4⟩)

/-- A range of 100 to 105 that is broken at 106. -/
def asianBreakout : DetectionKey × Detection :=
  orbDetection (fun _ => "") ⟨2000, 2, 1, 1 / 10, 12 / 10, [.asia]⟩ btcUsdt 1 ⟨.asia, 1, 86400, 105, 100, 1⟩ 3
    ⟨88200, 107, 103, 106, 1⟩ .bull

/-- A tick with that batch size, when the breakout has two bars behind it. -/
def tickOf (batchSize : ℕ) : TrackerInput where
  cfg := ⟨batchSize, []⟩
  now := 90000
  bars _ := ⟨[⟨88200, 107, 103, 106, 1⟩, ⟨89100, 112, 106, 111, 1⟩], by decide⟩
  reached _ := true

/-- The equal highs are older and have no stop: with room for one row no tick gets to the breakout. -/
theorem range_row_starves_breakout :
    let detections : DetectionTable := (AList.singleton equalHighs.1 equalHighs.2).insert asianBreakout.1
      asianBreakout.2
    ¬ Progresses (tickOf 1) detections ∅ ∧ ∀ n, ticks (tickOf 1) detections n ∅ = ∅ := by
  intro detections
  have hwaits : ∃ r ∈ rowsOf detections, Waits (tickOf 1) ∅ r := by decide +kernel
  have hnone : ∀ r ∈ batch (tickOf 1).cfg (tickOf 1).now detections ∅, ¬ InReach (tickOf 1) r := by decide +kernel
  refine ⟨fun h => ?_, fun n => ?_⟩
  · obtain ⟨r, hr, hreach⟩ := progresses_iff.1 h hwaits
    exact hnone r hr hreach
  · exact ticks_of_none hnone n

end Qtss.Worker.Outcomes
