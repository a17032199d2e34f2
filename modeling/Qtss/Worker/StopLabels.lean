import Qtss.Worker.TakeProfits
/-
# The label of a stop over a run of ticks (`setup_watcher.rs:73`, `:521`)

A stop that fires is a `TrailStop` in trailing mode or where `state.current_sl` differs from `entry_sl`. But
`state.current_sl` is the column `current_sl` only where there is one: before the first move it is `koruma`, the
"initial protection", and then `entry_sl`. A row that came with a `koruma` of its own closes as a `TrailStop` the first
time its stop is touched, moved or not; `stopLabels_iff` says that nothing else goes wrong.
-/

namespace Qtss.Worker
open Notify Storage Runs

/-- The trail is on, or `current_sl` has been stored. -/
def StopMoved (row : SetupRow) : Prop := row.trailMode = true ∨ row.currentSl.isSome

/-- What a tick reports. -/
def newKinds (w : Watched) (i : WatcherInput) : List LifecycleEventKind := (tickOnce w i).kinds.drop w.kinds.length

/-- A `TrailStop` only if the stop in force was moved; where it was not, a touch closes the setup as an `SlHit`. -/
structure RightLabel (w : Watched) (i : WatcherInput) : Prop where
  moved : .trailStop ∈ newKinds w i → StopMoved w.row
  unmoved : ∀ s, snapshot w.row i.prices = some s → s.state.reachedSl s.mid = true → ¬ StopMoved w.row →
    .slHit ∈ newKinds w i ∧ (tickOnce w i).row.closeReason = some "sl_hit"

/-- If the tick touches a stop that was not moved, `koruma` and `entry_sl` are not two different stops. -/
def OneInitialStop (w : Watched) (i : WatcherInput) : Prop :=
  ∀ s, snapshot w.row i.prices = some s → s.state.reachedSl s.mid = true → ¬ StopMoved w.row →
    ∀ koruma entrySl, w.row.koruma = some koruma → w.row.entrySl = some entrySl → koruma = entrySl

instance (row : SetupRow) : Decidable (StopMoved row) := inferInstanceAs (Decidable (_ ∨ _))

/-! ## The label of one touch -/

variable {w : Watched} {s : Snapshot} {i : WatcherInput}

/-- The label that setup_watcher.rs:537 gives. -/
def Snapshot.stopLabel (s : Snapshot) : LifecycleEventKind :=
  if s.row.trailMode ∨ s.state.currentSl ≠ s.row.entrySl.getD s.state.currentSl then .trailStop else .slHit

theorem onEvent_closeReason {ctx : LifecycleContext} {reason : String} (hopen : w.row.closedAt = none)
    (hreason : ctx.kind.closeReason = some reason) : (onEvent w ctx).row.closeReason = some reason := by
  have hside : (sideTables { w with events := w.events ++ [ctx] } ctx).row.closedAt = none := by
    rcases sideTables_cases { w with events := w.events ++ [ctx] } ctx with h | h | ⟨idx, h⟩ <;> rw [h] <;> exact hopen
  simp [onEvent, hreason, SetupRow.closeSetup, hside, Watched.update]

/-- A touch is reported once, under its label. -/
theorem slHit_label {price : ℚ} {health : HealthScore} (hopen : w.row.closedAt = none) :
    (handleDecision s.row s.state health i.cfg i.llm i.now w ⟨.slHit, none, price⟩).kinds =
        w.kinds ++ [s.stopLabel] ∧
      (handleDecision s.row s.state health i.cfg i.llm i.now w ⟨.slHit, none, price⟩).row.closeReason =
        s.stopLabel.closeReason := by
  have hpromote : promoteTpHit s.state ⟨.slHit, none, price⟩ = ⟨.slHit, none, price⟩ := rfl
  simp only [handleDecision, hpromote, if_true, Snapshot.stopLabel]
  split
  · exact ⟨onEvent_kinds, onEvent_closeReason hopen rfl⟩
  · exact ⟨onEvent_kinds, onEvent_closeReason hopen rfl⟩

/-- Before the first move the stop in force is `koruma`, and `entry_sl` where there is none. -/
theorem currentSl_of_unmoved {row : SetupRow} {state : WatcherSetupState} (h : buildState row = some state)
    (hmoved : ¬ StopMoved row) : (row.koruma <|> row.entrySl) = some state.currentSl := by
  have hnone : row.currentSl = none := by
    cases hsl : row.currentSl with
    | none => rfl
    | some a => exact absurd (.inr (by rw [hsl]; rfl)) hmoved
  unfold buildState at h
  rw [hnone] at h
  simp only [Option.bind_eq_bind, Option.bind_eq_some_iff, Option.pure_def, Option.some.injEq] at h
  obtain ⟨_, -, _, -, sl, hsl, rfl⟩ := h
  simpa using hsl

/-- The label is right exactly where there is one initial stop. -/
theorem stopLabel_eq_trailStop_iff {row : SetupRow} (hrow : s.row = row) (hstate : buildState row = some s.state)
    (hmoved : ¬ StopMoved row) :
    s.stopLabel = .trailStop ↔
      ¬ ∀ koruma entrySl, row.koruma = some koruma → row.entrySl = some entrySl → koruma = entrySl := by
  subst hrow
  have hsl := currentSl_of_unmoved hstate hmoved
  have htrail : s.row.trailMode = false := Bool.eq_false_iff.2 fun h => hmoved (.inl h)
  unfold Snapshot.stopLabel
  rw [htrail]
  cases hentry : s.row.entrySl with
  | none => simp
  | some entrySl =>
    cases hkoruma : s.row.koruma with
    | none =>
      rw [hkoruma, hentry] at hsl
      have heq : entrySl = s.state.currentSl := by simpa using hsl
      simp [heq]
    | some koruma =>
      rw [hkoruma] at hsl
      have heq : koruma = s.state.currentSl := by simpa using hsl
      simp [heq]

/-! ## A tick and a run -/

theorem newKinds_eq {ks : List LifecycleEventKind} (h : (tickOnce w i).kinds = w.kinds ++ ks) : newKinds w i = ks := by
  rw [newKinds, h, List.drop_left]

/-- Without a touch no label is given. -/
theorem actionToKind_ne_trailStop (a : SmartTargetAction) : actionToKind a ≠ .trailStop := by
  cases a <;> exact fun h => by cases h

theorem tickOnce_untouched (hsnap : snapshot w.row i.prices = some s) (htouch : s.state.reachedSl s.mid = false) :
    .trailStop ∉ newKinds w i := by
  obtain ⟨w₁, hquiet, ⟨htouched, -⟩ | ⟨-, htick⟩⟩ := tickOnce_cases hsnap
  · rw [htouch] at htouched
    cases htouched
  · obtain ⟨ks, hks, hnonterminal⟩ := hquiet.kinds
    have hkinds := runHits_kinds (s := s) (i := i) (s.state.dueLevels s.mid) w₁
    rw [hks, List.append_assoc] at hkinds
    rw [newKinds_eq (htick ▸ hkinds), List.mem_append, List.mem_map, not_or]
    constructor
    · intro hmem
      cases hnonterminal _ hmem
    · rintro ⟨n, -, hn⟩
      exact actionToKind_ne_trailStop _ hn

/-- A touch is the last report of its tick. -/
theorem tickOnce_touched (hsnap : snapshot w.row i.prices = some s) (htouch : s.state.reachedSl s.mid = true) :
    (∃ ks, newKinds w i = ks ++ [s.stopLabel] ∧ ∀ k ∈ ks, k.isTerminal = false) ∧
      (tickOnce w i).row.closeReason = s.stopLabel.closeReason := by
  obtain ⟨w₁, hquiet, ⟨-, htick⟩ | ⟨htouched, -⟩⟩ := tickOnce_cases hsnap
  · obtain ⟨ks, hks, hnonterminal⟩ := hquiet.kinds
    have hopen : w₁.row.closedAt = none := hquiet.closedAt.trans (snapshot_open hsnap)
    obtain ⟨hkinds, hreason⟩ := @slHit_label w₁ s i s.mid (s.health i.cfg) hopen
    rw [hks, List.append_assoc] at hkinds
    rw [htick]
    exact ⟨⟨ks, newKinds_eq (htick ▸ hkinds), hnonterminal⟩, hreason⟩
  · rw [htouch] at htouched
    cases htouched

/-- A tick reads one snapshot. -/
theorem forall_snapshot {P : Snapshot → Prop} (hsnap : snapshot w.row i.prices = some s) :
    (∀ s', snapshot w.row i.prices = some s' → P s') ↔ P s := by
  rw [hsnap]
  simp

/-- **One tick.** -/
theorem rightLabel_iff (w : Watched) (i : WatcherInput) : RightLabel w i ↔ OneInitialStop w i := by
  cases hsnap : snapshot w.row i.prices with
  | none =>
    have hkinds : newKinds w i = [] := newKinds_eq (by simp [tickOnce, hsnap])
    have hnone (s : Snapshot) : snapshot w.row i.prices ≠ some s := by simp [hsnap]
    constructor
    · exact fun _ s hs => absurd hs (hnone s)
    · refine fun _ => ⟨fun hmem => ?_, fun s hs => absurd hs (hnone s)⟩
      rw [hkinds] at hmem
      cases hmem
  | some s =>
    obtain ⟨hrow, -, hstate, -⟩ := snapshot_eq_some.1 hsnap
    rw [OneInitialStop, forall_snapshot hsnap]
    cases htouch : s.state.reachedSl s.mid with
    | false =>
      constructor
      · exact fun _ h => absurd h Bool.false_ne_true
      · refine fun _ => ⟨fun h => absurd h (tickOnce_untouched hsnap htouch), (forall_snapshot hsnap).2 ?_⟩
        rw [htouch]
        exact fun h => absurd h Bool.false_ne_true
    | true =>
      obtain ⟨⟨ks, hkinds, hnonterminal⟩, hreason⟩ := tickOnce_touched hsnap htouch
      have hlabel := stopLabel_eq_trailStop_iff hrow hstate
      constructor
      · intro h _ hunmoved
        by_contra hbad
        apply hunmoved
        apply h.moved
        rw [hkinds, (hlabel hunmoved).2 hbad]
        simp
      · intro h
        have hslHit (hunmoved : ¬ StopMoved w.row) : s.stopLabel = .slHit := by
          have hne : s.stopLabel ≠ .trailStop := fun htrail => (hlabel hunmoved).1 htrail (h rfl hunmoved)
          unfold Snapshot.stopLabel at hne ⊢
          split at hne
          · exact absurd rfl hne
          · rename_i hnot
            rw [if_neg hnot]
        constructor
        · intro hmem
          by_contra hunmoved
          rw [hkinds, hslHit hunmoved, List.mem_append] at hmem
          obtain hmem | hmem := hmem
          · cases hnonterminal _ hmem
          · cases List.mem_singleton.1 hmem
        · refine (forall_snapshot hsnap).2 fun _ hunmoved => ?_
          rw [hkinds, hreason, hslHit hunmoved]
          exact ⟨by simp, rfl⟩

/-- **Every run**: all the labels are right exactly if no tick touches the initial stop of a row that has two. -/
theorem stopLabels_iff (row : SetupRow) (ticks : List WatcherInput) :
    AllSteps tickOnce RightLabel (.start row) ticks ↔ AllSteps tickOnce OneInitialStop (.start row) ticks :=
  allSteps_congr (J := fun _ => True) (K := fun _ => True) (fun _ _ _ _ => trivial)
    (fun w i _ _ => rightLabel_iff w i) trivial fun _ _ => trivial

/-- Entered at 100 with `entry_sl` 95 and an initial protection at 97. -/
def protectedAt97 : SetupRow := { longFrom100Row with koruma := some 97 }

def fallTo96 : WatcherInput := ⟨fun _ _ => some ⟨96, 96, 60⟩, 60, fallbackConfig, defaultLlmJudge⟩

theorem unmoved_stop_is_trailStop : ¬ AllSteps tickOnce RightLabel (.start protectedAt97) [fallTo96] := by
  intro h
  have hreported : .trailStop ∈ newKinds (.start protectedAt97) fallTo96 := by decide +kernel
  exact absurd (h.1.moved hreported) (by decide +kernel)

/-! ## Which ticks move the stop -/

/-- What `StopMoved` reads. -/
def stopColumns (row : SetupRow) : Bool × Option ℚ := (row.trailMode, row.currentSl)

theorem onEvent_stopColumns {ctx : LifecycleContext} : stopColumns (onEvent w ctx).row = stopColumns w.row := by
  have hside : stopColumns (sideTables { w with events := w.events ++ [ctx] } ctx).row = stopColumns w.row := by
    rcases sideTables_cases { w with events := w.events ++ [ctx] } ctx with h | h | ⟨idx, h⟩ <;> rw [h] <;> rfl
  unfold onEvent
  split
  · rw [← hside]
    simp only [stopColumns, update_row, SetupRow.closeSetup]
    split <;> rfl
  · exact hside

theorem handleDecision_stopColumns {health : HealthScore} {decision : LifecycleDecision} :
    stopColumns (handleDecision s.row s.state health i.cfg i.llm i.now w decision).row = stopColumns w.row := by
  unfold handleDecision
  split
  · unfold handleTpHit
    split
    · rfl
    · exact onEvent_stopColumns
  · exact onEvent_stopColumns

theorem transitions_stopColumns {health : HealthScore} (decisions : List LifecycleDecision) (w : Watched) :
    stopColumns (decisions.foldl (handleDecision s.row s.state health i.cfg i.llm i.now) w).row =
      stopColumns w.row := by
  induction decisions generalizing w with
  | nil => rfl
  | cons decision decisions ih => rw [List.foldl_cons, ih, handleDecision_stopColumns]

theorem stopMoved_congr {row row' : SetupRow} (h : stopColumns row' = stopColumns row) :
    StopMoved row' ↔ StopMoved row := by
  obtain ⟨htrail, hsl⟩ := Prod.mk.inj h
  rw [StopMoved, StopMoved, htrail, hsl]

/-- The advance of the trail moves no stop that had not been moved. -/
theorem runTrailAdvance_moved (hrow : s.row = w.row) :
    StopMoved (runTrailAdvance s.row s.state s.mid i.cfg.approach w).row ↔ StopMoved w.row := by
  cases htrail : s.row.trailMode with
  | false => simp [runTrailAdvance, htrail]
  | true =>
    have hw : w.row.trailMode = true := hrow ▸ htrail
    rcases runTrailAdvance_cases (s := s) (i := i) (w := w) with ⟨-, heq⟩ | ⟨-, heq | heq⟩ <;>
      simp [heq, StopMoved, SetupRow.applyTrailAdvance, hw]

theorem runPozKoruma_moved :
    StopMoved (runPozKoruma s.row s.state s.mid i.cfg.pozKoruma (s.health i.cfg) i.now w).row ↔
      StopMoved w.row ∨ s.Ratchets i := by
  rcases runPozKoruma_cases (s := s) (i := i) (w := w) with
    ⟨hfires, _, _, _, _, -, heq⟩ | ⟨hno, heq | ⟨_, _, _, heq⟩⟩
  · simp [heq, StopMoved, SetupRow.applyRatchetUpdate, hfires]
  · simp [heq, hno]
  · simp [heq, StopMoved, SetupRow.applyRatchetUpdate, hno]

theorem runTpApproach_moved : StopMoved (runTpApproach s i w).row ↔ StopMoved w.row ∨ s.TrailStarts i := by
  rcases runTpApproach_cases (s := s) (i := i) (w := w) with ⟨hstart, _, _, -, heq⟩ | ⟨hno, heq | ⟨_, heq⟩⟩
  · simp [heq, StopMoved, SetupRow.applyTrailEnable, hstart]
  · simp [heq, hno]
  · simp [heq, StopMoved, SetupRow.markAiAdvised, hno]

/-- The ratchet and the start of the trail move the stop for the first time, and nothing else does. -/
theorem stopMoved_tickOnce (w : Watched) (i : WatcherInput) :
    StopMoved (tickOnce w i).row ↔
      StopMoved w.row ∨ ∃ s, snapshot w.row i.prices = some s ∧ (s.Ratchets i ∨ s.TrailStarts i) := by
  unfold tickOnce
  cases hsnap : snapshot w.row i.prices with
  | none => simp
  | some s =>
    have hrow : s.row = w.row := (snapshot_eq_some.1 hsnap).1
    simp only [stopMoved_congr (transitions_stopColumns _ _), moveStops, runTpApproach_moved, runPozKoruma_moved,
      runTrailAdvance_moved hrow, Option.some.injEq, exists_eq_left', or_assoc]

/-- A stop is unmoved after a run if it was before and no tick ratchets it or starts the trail. -/
theorem not_stopMoved_run_iff (row : SetupRow) (ticks : List WatcherInput) :
    ¬ StopMoved (run tickOnce (.start row) ticks).row ↔
      ¬ StopMoved row ∧ AllSteps tickOnce (fun w i => ∀ s, snapshot w.row i.prices = some s →
        ¬ s.Ratchets i ∧ ¬ s.TrailStarts i) (.start row) ticks := by
  refine run_iff_allSteps (J := fun _ => True) (K := fun _ => True) (P := fun w : Watched => ¬ StopMoved w.row)
    (fun _ _ _ _ => trivial) (fun w i _ _ => ?_) trivial fun _ _ => trivial
  rw [stopMoved_tickOnce]
  simp only [not_or, not_exists, not_and]

end Qtss.Worker
