import Qtss.Lib.Runs
import Qtss.Worker.OutcomeBatch
/-
# Whose outcome a detection is joined with

"Composite detection key matches the upsert key in `detections`", says 0233_pattern_outcomes.sql of the primary key of
`pattern_outcomes`, but it was written without `end_time`, which that upsert key has since 0215. Detections that differ
in their ends only share a row of outcomes: the one that is graded last overwrites it, and a final outcome keeps all of
them out of the batches to come. `owned_iff` says in which runs that never happens.
-/

namespace Qtss.Worker.Outcomes
open Engine Keyed Runs

/-- The outcomes, and for each the detection that it was computed from. -/
structure Graded where
  outcomes : OutcomeTable
  origin : HashMap OutcomeKey (DetectionKey × PatternOutcome)
  joined : ∀ k, outcomes.lookup k = (origin.lookup k).map (·.2)

def Graded.start : Graded := ⟨∅, ∅, fun _ => rfl⟩

/-- `runTick`, with what is known of the origins. -/
def Graded.tick (detections : DetectionTable) (s : Graded) (i : TrackerInput) : Graded where
  outcomes := runTick i detections s.outcomes
  origin := (writes i detections s.outcomes).foldl (fun m w => m.insert (OutcomeKey.of w.1) w) s.origin
  joined k := by
    have hout := lookup_foldl_insert_by (fun w => OutcomeKey.of w.1) (fun w : DetectionKey × PatternOutcome => w.2) k
      (writes i detections s.outcomes) s.outcomes
    have horigin := lookup_foldl_insert_by (fun w => OutcomeKey.of w.1)
      (fun w : DetectionKey × PatternOutcome => w) k (writes i detections s.outcomes) s.origin
    unfold runTick upsertOutcome
    rw [hout, horigin, s.joined]
    cases ((writes i detections s.outcomes).filter fun w => OutcomeKey.of w.1 = k).getLast? <;> rfl

/-- The outcome that a detection is joined with, if there is one, was computed from this detection. -/
def Owned (detections : DetectionTable) (s : Graded) : Prop :=
  ∀ r ∈ rowsOf detections, ∀ w ∈ s.origin.lookup (OutcomeKey.of r.1), w.1 = r.1

instance (detections : DetectionTable) : DecidablePred (Owned detections) := fun _ =>
  inferInstanceAs (Decidable (∀ r ∈ _, ∀ w ∈ _, _))

/-- No detection that the tick grades differs from another one in its end only. -/
def GradesAlone (detections : DetectionTable) (s : Graded) (i : TrackerInput) : Prop :=
  ∀ r ∈ batch i.cfg i.now detections s.outcomes, InReach i r →
    ∀ r' ∈ rowsOf detections, OutcomeKey.of r'.1 = OutcomeKey.of r.1 → r'.1 = r.1

variable {detections : DetectionTable} {s : Graded} {i : TrackerInput}

theorem origin_tick (k : OutcomeKey) : (s.tick detections i).origin.lookup k =
    (((writes i detections s.outcomes).filter fun w => OutcomeKey.of w.1 = k).getLast?).or (s.origin.lookup k) := by
  have h := lookup_foldl_insert_by (fun w => OutcomeKey.of w.1) (fun w : DetectionKey × PatternOutcome => w) k
    (writes i detections s.outcomes) s.origin
  simpa [Graded.tick] using h

/-- An origin of after the tick is of a row that it graded, or was one before. -/
theorem origin_cases {k : OutcomeKey} {w : DetectionKey × PatternOutcome}
    (h : (s.tick detections i).origin.lookup k = some w) :
    (∃ r ∈ batch i.cfg i.now detections s.outcomes, InReach i r ∧ r.1 = w.1 ∧ OutcomeKey.of w.1 = k) ∨
      s.origin.lookup k = some w := by
  rw [origin_tick] at h
  rcases Option.or_eq_some_iff.1 h with hnew | ⟨-, hold⟩
  · obtain ⟨hw, hk⟩ := List.mem_filter.1 (List.mem_of_getLast? hnew)
    obtain ⟨r, hr, hreach, hrw⟩ := exists_writes_iff.1 ⟨w, hw, rfl⟩
    exact .inl ⟨r, hr, hreach, hrw, of_decide_eq_true hk⟩
  · exact .inr hold

/-- A row that the tick grades gives its outcome key a new origin. -/
theorem exists_origin {r : DetectionKey × Detection} (hr : r ∈ batch i.cfg i.now detections s.outcomes)
    (hreach : InReach i r) : ∃ w, (s.tick detections i).origin.lookup (OutcomeKey.of r.1) = some w := by
  obtain ⟨w, hw, hwr⟩ := exists_writes_iff.2 ⟨r, hr, hreach, rfl⟩
  have hmem : w ∈ (writes i detections s.outcomes).filter fun w => OutcomeKey.of w.1 = OutcomeKey.of r.1 :=
    List.mem_filter.2 ⟨hw, decide_eq_true (by rw [hwr])⟩
  obtain ⟨last, hlast⟩ := Option.isSome_iff_exists.1 (List.getLast?_isSome.2 (List.ne_nil_of_mem hmem))
  exact ⟨last, by rw [origin_tick, hlast, Option.some_or]⟩

theorem owned_tick (h : Owned detections s) (halone : GradesAlone detections s i) :
    Owned detections (s.tick detections i) := by
  intro r hr w hw
  rcases origin_cases hw with ⟨r', hr', hreach, hw', hkey⟩ | hold
  · rw [← hw'] at hkey ⊢
    exact (halone r' hr' hreach r hr hkey.symm).symm
  · exact h r hr w hold

/-- Of two detections that share an outcome one has another's. -/
theorem not_owned_tick (htwin : ¬ GradesAlone detections s i) : ¬ Owned detections (s.tick detections i) := by
  unfold GradesAlone at htwin
  push Not at htwin
  obtain ⟨r, hr, hreach, r', hr', hsame, hne⟩ := htwin
  obtain ⟨w, hw⟩ := exists_origin hr hreach
  intro howned
  have hown := howned r (mem_batch hr).1 w hw
  exact hne ((howned r' hr' w (hsame ▸ hw)).symm.trans hown)

/-- **Outcome identity**: in a run of ticks every detection is joined with an outcome of its own only, exactly when no
tick grades a detection that differs from another one in its end only. -/
theorem owned_iff (detections : DetectionTable) (is : List TrackerInput) :
    AllStates (Graded.tick detections) (Owned detections) .start is ↔
      AllSteps (Graded.tick detections) (GradesAlone detections) .start is :=
  allStates_iff_allSteps (J := Owned detections) (K := fun _ => True) (fun _ h => h)
    (fun _ _ h _ halone => owned_tick h halone) (fun _ _ _ _ htwin => not_owned_tick htwin)
    (fun _ _ _ h => nomatch h) fun _ _ => trivial

/-- The same range is broken at 111, a bar later. -/
def laterBreakout : DetectionKey × Detection :=
  orbDetection (fun _ => "") ⟨2000, 2, 1, 1 / 10, 12 / 10, [.asia]⟩ btcUsdt 1 ⟨.asia, 1, 86400, 105, 100, 1⟩ 4
    ⟨89100, 112, 106, 111, 1⟩ .bull

/-- The first breakout makes its target at 112. The later one, whose entry is 111 and whose first target 122, has that
outcome too, and is not looked at again. -/
theorem later_breakout_inherits :
    let detections := (AList.singleton laterBreakout.1 laterBreakout.2).insert asianBreakout.1 asianBreakout.2
    let s := run (Graded.tick detections) .start [tickOf 1]
    ¬ AllStates (Graded.tick detections) (Owned detections) .start [tickOf 1]
      ∧ (s.outcomes.lookup (OutcomeKey.of laterBreakout.1)).map (fun o => (o.outcome, o.outcomePrice, o.target)) =
        some (.tp1Hit, some 112, ⟨106, [112, 118, 124], 100, 1⟩)
      ∧ targetsOf laterBreakout.1 laterBreakout.2 = some ⟨111, [122, 133, 144], 100, 1⟩
      ∧ isCandidate 90000 s.outcomes laterBreakout.1 = false := by
  decide +kernel

end Qtss.Worker.Outcomes
