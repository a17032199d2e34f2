import Mathlib.Data.List.Chain
import Qtss.Lib.Runs
import Qtss.Worker.SetupWatcher
/-
# The stored stop over a run of ticks

The trailing stop and the ratchet "tighten" the stop the row was read with, not the stop that is stored
when they write: a tick that moves the stop twice keeps the second move, even where the first one was
tighter (`trail_then_ratchet_loosens`). `neverLoosens_iff` says that nothing else loosens it.
-/

namespace Qtss.Worker
open Notify Storage Runs

/-- `b` is not a looser stop than `a`. -/
def NotLooser (d : SetupDirection) (a b : ℚ) : Prop := ¬ Tighter d b a

instance (d : SetupDirection) : DecidableRel (NotLooser d) :=
  fun a b => inferInstanceAs (Decidable (¬ Tighter d b a))

/-- The values stored in `current_sl` so far, each against the one before it. -/
def NeverLoosens (w : Watched) : Prop :=
  match parseDirection w.row.direction with
  | some d => w.stops.IsChain (NotLooser d)
  | none => True

instance (w : Watched) : Decidable (NeverLoosens w) := by
  unfold NeverLoosens
  split <;> infer_instance

/-- If the ratchet fires on a tick that moves the trail, the stop that is written last is not the looser
one: after an advance of the trail the locked or the original stop is as tight as the trailing stop,
before its start neither is tighter. -/
def KeepsTightest (w : Watched) (i : WatcherInput) : Prop :=
  ∀ s, snapshot w.row i.prices = some s → s.Ratchets i →
    let d := s.state.direction
    (s.TrailAdvances i → ¬ Tighter d (s.lockedStop i) (s.trailStop i)
        ∨ ¬ Tighter d s.ratchet.originalSl (s.trailStop i))
      ∧ (s.TrailStarts i → ¬ Tighter d (s.trailStop i) (s.lockedStop i)
        ∧ ¬ Tighter d (s.trailStop i) s.ratchet.originalSl)

/-! ## One update -/

variable {d : SetupDirection} {w w' : Watched} {s : Snapshot} {i : WatcherInput} {a b : ℚ}

/-- The log ends with the stored stop, and no stop in it is looser than the one before. -/
structure StopOk (d : SetupDirection) (w : Watched) : Prop where
  last : w.stops.getLast? = w.row.currentSl
  chain : w.stops.IsChain (NotLooser d)

theorem notLooser_rfl : NotLooser d a a := not_tighter_self

/-- An update that does not loosen the stop. -/
theorem StopOk.update {f : SetupRow → SetupRow} (h : StopOk d w)
    (hf : ∀ a, w.row.currentSl = some a → ∃ b, (f w.row).currentSl = some b ∧ NotLooser d a b) :
    StopOk d (w.update f) := by
  cases hold : w.row.currentSl with
  | none =>
    have hempty : w.stops = [] := List.getLast?_eq_none_iff.1 (h.last.trans hold)
    cases hnew : (f w.row).currentSl <;> constructor <;> simp [Watched.update, hempty, hnew]
  | some a =>
    obtain ⟨b, hnew, hab⟩ := hf a hold
    constructor
    · simp [Watched.update, hnew]
    · simp only [Watched.update, hnew, Option.toList_some]
      apply h.chain.append (List.isChain_singleton b)
      intro x hx y hy
      obtain rfl : a = x := by rw [h.last, hold] at hx; exact Option.some.inj hx
      obtain rfl : b = y := by simpa using hy
      exact hab

theorem StopOk.update_same {f : SetupRow → SetupRow} (h : StopOk d w)
    (hf : (f w.row).currentSl = w.row.currentSl) : StopOk d (w.update f) :=
  h.update fun a ha => ⟨a, hf.trans ha, notLooser_rfl⟩

/-- A looser stop stays in the log. -/
theorem StopOk.update_looser {f : SetupRow → SetupRow} (h : StopOk d w)
    (hold : w.row.currentSl = some a) (hnew : (f w.row).currentSl = some b) (hab : Tighter d b a) :
    ¬ (w.update f).stops.IsChain (NotLooser d) := by
  intro hchain
  simp only [Watched.update, hnew, Option.toList_some] at hchain
  have hlast := (List.isChain_append.1 hchain).2.2
  exact hlast a (by rw [h.last, hold]; rfl) b rfl hab

/-! ## The stop moves of a tick -/

theorem trail_stopOk (h : StopOk d w) (hrow : w.row = s.row) (hdir : s.state.direction = d)
    (hsl : ∀ a, s.row.currentSl = some a → s.state.currentSl = a) (w₁ : Watched)
    (hw₁ : w₁ = runTrailAdvance s.row s.state s.mid i.cfg.approach w) :
    StopOk d w₁ ∧ (s.TrailAdvances i → w₁.row.currentSl = some (s.trailStop i))
      ∧ (¬ s.TrailAdvances i → ∀ a, w₁.row.currentSl = some a → a = s.state.currentSl) := by
  rcases runTrailAdvance_cases (s := s) (i := i) (w := w) with ⟨hadv, heq⟩ | ⟨hnot, heq | heq⟩ <;>
    rw [heq] at hw₁ <;> subst hw₁
  · refine ⟨h.update ?_, fun _ => rfl, fun hnot => absurd hadv hnot⟩
    intro a ha
    rw [hrow] at ha
    refine ⟨_, rfl, ?_⟩
    rw [← hsl a ha, ← hdir]
    exact hadv.2.2.asymm
  · refine ⟨h, fun hadv => absurd hadv hnot, fun _ a ha => ?_⟩
    rw [hrow] at ha
    exact (hsl a ha).symm
  · refine ⟨h.update ?_, fun hadv => absurd hadv hnot, fun _ a ha => ?_⟩
    · intro a ha
      rw [hrow] at ha
      refine ⟨_, rfl, ?_⟩
      rw [← hsl a ha]
      exact notLooser_rfl
    · exact (Option.some.inj ha).symm

/-- The ratchet is never looser than the stop it was given. -/
theorem notLooser_ratchetStop : NotLooser s.state.direction s.state.currentSl (s.ratchetStop i) := by
  intro h
  exact not_tighter_self (tighterOf_tighter.1 h).2

theorem ratchet_looser_iff (hadv : s.TrailAdvances i) :
    Tighter s.state.direction (s.ratchetStop i) (s.trailStop i) ↔
      Tighter s.state.direction (s.lockedStop i) (s.trailStop i)
        ∧ Tighter s.state.direction s.ratchet.originalSl (s.trailStop i) := by
  unfold Snapshot.ratchetStop
  rw [tighterOf_tighter, tighterOf_tighter]
  exact and_iff_left hadv.2.2

theorem trail_looser_iff (hstart : s.TrailStarts i) :
    Tighter s.state.direction (s.trailStop i) (s.ratchetStop i) ↔
      Tighter s.state.direction (s.trailStop i) (s.lockedStop i)
        ∨ Tighter s.state.direction (s.trailStop i) s.ratchet.originalSl := by
  unfold Snapshot.ratchetStop
  rw [tighter_tighterOf, tighter_tighterOf]
  exact or_iff_left hstart.2.2.2.asymm

/-- After the advance of the trail the ratchet keeps the log unless it is looser than the trailing
stop. -/
theorem ratchet_stopOk (h : StopOk d w) (hdir : s.state.direction = d)
    (hadv : s.TrailAdvances i → w.row.currentSl = some (s.trailStop i))
    (hnot : ¬ s.TrailAdvances i → ∀ a, w.row.currentSl = some a → a = s.state.currentSl)
    (w₂ : Watched)
    (hw₂ : w₂ = runPozKoruma s.row s.state s.mid i.cfg.pozKoruma (s.health i.cfg) i.now w) :
    ((s.Ratchets i → s.TrailAdvances i → ¬ Tighter d (s.ratchetStop i) (s.trailStop i)) →
      StopOk d w₂ ∧ (s.Ratchets i → w₂.row.currentSl = some (s.ratchetStop i))
        ∧ (¬ s.Ratchets i → w₂.row.currentSl = w.row.currentSl))
    ∧ (s.Ratchets i → s.TrailAdvances i → Tighter d (s.ratchetStop i) (s.trailStop i) →
      ¬ w₂.stops.IsChain (NotLooser d)) := by
  subst hdir
  rcases runPozKoruma_cases (s := s) (i := i) (w := w) with
    ⟨hfires, reference, cumulative, at_, ctx, -, heq⟩ | ⟨hno, heq⟩
  · rw [heq] at hw₂
    subst hw₂
    refine ⟨fun hkeep => ?_, fun _ hadv' hlooser => ?_⟩
    · have hup : StopOk s.state.direction (w.update
          (·.applyRatchetUpdate (some (s.ratchetStop i)) reference cumulative at_)) := by
        apply h.update
        intro a ha
        refine ⟨_, rfl, ?_⟩
        by_cases hadv' : s.TrailAdvances i
        · obtain rfl := Option.some.inj ((hadv hadv').symm.trans ha)
          exact hkeep hfires hadv'
        · rw [hnot hadv' a ha]
          exact notLooser_ratchetStop
      exact ⟨⟨hup.last, hup.chain⟩, fun _ => rfl, fun hno => absurd hfires hno⟩
    · exact h.update_looser (hadv hadv') rfl hlooser
  · refine ⟨fun _ => ?_, fun hfires => absurd hfires hno⟩
    rcases heq with heq | ⟨reference, cumulative, at_, heq⟩ <;> rw [heq] at hw₂ <;> subst hw₂
    · exact ⟨h, fun hfires => absurd hfires hno, fun _ => rfl⟩
    · exact ⟨h.update_same rfl, fun hfires => absurd hfires hno, fun _ => rfl⟩

/-- The start of the trail keeps the log unless the ratchet of the same tick is tighter. -/
theorem approach_stopOk (h : StopOk d w) (hdir : s.state.direction = d)
    (hfires : s.Ratchets i → w.row.currentSl = some (s.ratchetStop i))
    (hno : ¬ s.Ratchets i → s.TrailStarts i → ∀ a, w.row.currentSl = some a → a = s.state.currentSl) :
    ((s.Ratchets i → s.TrailStarts i → ¬ Tighter d (s.trailStop i) (s.ratchetStop i)) →
      StopOk d (runTpApproach s i w))
    ∧ (s.Ratchets i → s.TrailStarts i → Tighter d (s.trailStop i) (s.ratchetStop i) →
      ¬ (runTpApproach s i w).stops.IsChain (NotLooser d)) := by
  subst hdir
  rcases runTpApproach_cases (s := s) (i := i) (w := w) with ⟨hstart, n, ctx, -, heq⟩ | ⟨hnot, heq⟩
  · rw [heq]
    refine ⟨fun hkeep => ?_, fun hf _ hlooser => h.update_looser (hfires hf) rfl hlooser⟩
    have hup : StopOk s.state.direction
        (w.update (·.applyTrailEnable s.mid (s.trailStop i) n i.now)) := by
      apply h.update
      intro a ha
      refine ⟨_, rfl, ?_⟩
      by_cases hf : s.Ratchets i
      · obtain rfl := Option.some.inj ((hfires hf).symm.trans ha)
        exact hkeep hf hstart
      · rw [hno hf hstart a ha]
        exact hstart.2.2.2.asymm
    exact ⟨hup.last, hup.chain⟩
  · refine ⟨fun _ => ?_, fun _ hstart => absurd hstart hnot⟩
    rcases heq with heq | ⟨n, heq⟩ <;> rw [heq]
    · exact h
    · exact h.update_same rfl

/-! ## The transitions leave the stop alone -/

/-- `w'` is reached from `w` by updates: the log has only grown. -/
structure Extends (w w' : Watched) : Prop where
  direction : w'.row.direction = w.row.direction
  stops : w.stops <+: w'.stops

theorem Extends.refl (w : Watched) : Extends w w := ⟨rfl, List.prefix_refl _⟩

theorem Extends.trans {w w' w'' : Watched} (h : Extends w w') (h' : Extends w' w'') : Extends w w'' :=
  ⟨h'.direction.trans h.direction, h.stops.trans h'.stops⟩

theorem extends_update {f : SetupRow → SetupRow} (hf : (f w.row).direction = w.row.direction) :
    Extends w (w.update f) :=
  ⟨hf, List.prefix_append _ _⟩

theorem runTrailAdvance_extends :
    Extends w (runTrailAdvance s.row s.state s.mid i.cfg.approach w) := by
  rcases runTrailAdvance_cases (s := s) (i := i) (w := w) with ⟨-, heq⟩ | ⟨-, heq | heq⟩ <;> rw [heq]
  · exact extends_update rfl
  · exact .refl w
  · exact extends_update rfl

theorem runPozKoruma_extends :
    Extends w (runPozKoruma s.row s.state s.mid i.cfg.pozKoruma (s.health i.cfg) i.now w) := by
  rcases runPozKoruma_cases (s := s) (i := i) (w := w) with
    ⟨-, reference, cumulative, at_, ctx, -, heq⟩ | ⟨-, heq | ⟨reference, cumulative, at_, heq⟩⟩ <;>
    rw [heq]
  · exact ⟨rfl, List.prefix_append _ _⟩
  · exact .refl w
  · exact extends_update rfl

theorem runTpApproach_extends : Extends w (runTpApproach s i w) := by
  rcases runTpApproach_cases (s := s) (i := i) (w := w) with
    ⟨-, n, ctx, -, heq⟩ | ⟨-, heq | ⟨n, heq⟩⟩ <;> rw [heq]
  · exact ⟨rfl, List.prefix_append _ _⟩
  · exact .refl w
  · exact extends_update rfl

/-- What dispatching an event does to the stop. -/
theorem onEvent_stop (w : Watched) (ctx : LifecycleContext) :
    Extends w (onEvent w ctx) ∧ (StopOk d w → StopOk d (onEvent w ctx)) := by
  have hside : ∀ w, Extends w (sideTables w ctx) ∧ (StopOk d w → StopOk d (sideTables w ctx)) := by
    intro w
    rcases sideTables_cases w ctx with h | h | ⟨idx, h⟩ <;> rw [h]
    · exact ⟨.refl w, id⟩
    · exact ⟨extends_update rfl, fun h => h.update_same rfl⟩
    · exact ⟨extends_update rfl, fun h => h.update_same rfl⟩
  have hpush : StopOk d w → StopOk d { w with events := w.events ++ [ctx] } := fun h => ⟨h.last, h.chain⟩
  obtain ⟨hext, hok⟩ := hside { w with events := w.events ++ [ctx] }
  have hext' : Extends w (sideTables { w with events := w.events ++ [ctx] } ctx) :=
    ⟨hext.direction, hext.stops⟩
  unfold onEvent
  split
  · exact ⟨hext'.trans (extends_update (by simp)), fun h => (hok (hpush h)).update_same (by simp)⟩
  · exact ⟨hext', fun h => hok (hpush h)⟩

theorem handleDecision_stop (w : Watched) (decision : LifecycleDecision) {health : HealthScore} :
    Extends w (handleDecision s.row s.state health i.cfg i.llm i.now w decision)
      ∧ (StopOk d w → StopOk d (handleDecision s.row s.state health i.cfg i.llm i.now w decision)) := by
  unfold handleDecision
  split
  · unfold handleTpHit
    split
    · exact ⟨.refl w, id⟩
    · rename_i n _
      obtain ⟨hext, hok⟩ := onEvent_stop (d := d) _ _
      exact ⟨⟨hext.direction, hext.stops⟩, fun h => hok ⟨h.last, h.chain⟩⟩
  · exact onEvent_stop _ _

theorem transitions_stop (health : HealthScore) (decisions : List LifecycleDecision) (w : Watched) :
    Extends w (decisions.foldl (handleDecision s.row s.state health i.cfg i.llm i.now) w)
      ∧ (StopOk d w →
        StopOk d (decisions.foldl (handleDecision s.row s.state health i.cfg i.llm i.now) w)) := by
  induction decisions generalizing w with
  | nil => exact ⟨.refl w, id⟩
  | cons decision decisions ih =>
    obtain ⟨hext, hok⟩ := handleDecision_stop (s := s) (i := i) (d := d) w decision
    obtain ⟨hexts, hoks⟩ := ih (handleDecision s.row s.state health i.cfg i.llm i.now w decision)
    exact ⟨hext.trans hexts, fun h => hoks (hok h)⟩

/-! ## A tick and a run -/

theorem tickOnce_extends (w : Watched) (i : WatcherInput) : Extends w (tickOnce w i) := by
  unfold tickOnce
  split
  · exact .refl w
  · exact ((runTrailAdvance_extends.trans runPozKoruma_extends).trans runTpApproach_extends).trans
      (transitions_stop (d := .long) _ _ _).1

/-- **One tick**: the log stays monotone exactly when the last move of the stop is not the looser. -/
theorem tickOnce_stop (hd : parseDirection w.row.direction = some d) (h : StopOk d w) :
    (KeepsTightest w i → StopOk d (tickOnce w i))
      ∧ (¬ KeepsTightest w i → ¬ (tickOnce w i).stops.IsChain (NotLooser d)) := by
  unfold KeepsTightest tickOnce
  cases hsnap : snapshot w.row i.prices with
  | none => exact ⟨fun _ => h, fun hnot => absurd (fun s hs => by cases hs) hnot⟩
  | some s =>
    obtain ⟨hrow, -, hstate, -⟩ := snapshot_eq_some.1 hsnap
    obtain ⟨hdirection, hsl, -⟩ := buildState_spec hstate
    have hdir : s.state.direction = d := Option.some.inj (hdirection.symm.trans hd)
    subst hdir
    obtain ⟨hok₁, hadv, hnadv⟩ := trail_stopOk (i := i) h hrow.symm rfl (hrow ▸ hsl) _ rfl
    obtain ⟨hratchet, hratchetBad⟩ := ratchet_stopOk hok₁ rfl hadv hnadv _ rfl
    simp only [Option.some.injEq, forall_eq']
    -- the trail does not advance on the tick it starts
    have hexcl : s.TrailStarts i → ¬ s.TrailAdvances i := fun hstart hadv =>
      Bool.false_ne_true (hstart.1.symm.trans hadv.1)
    have hdecisions := transitions_stop (s := s) (i := i) (d := s.state.direction)
      (s.health i.cfg) (detectTransitions s.state s.tick) (moveStops s i w)
    by_cases hratchetOk : s.Ratchets i → s.TrailAdvances i →
        ¬ Tighter s.state.direction (s.ratchetStop i) (s.trailStop i)
    · obtain ⟨hok₂, hfires, hnofires⟩ := hratchet hratchetOk
      obtain ⟨hstart, hstartBad⟩ := approach_stopOk (i := i) hok₂ rfl hfires
        fun hno hstart a ha => hnadv (hexcl hstart) a ((hnofires hno).symm.trans ha)
      constructor
      · intro hkeep
        apply hdecisions.2
        apply hstart
        intro hf hs hlooser
        rcases (trail_looser_iff hs).1 hlooser with hlocked | horiginal
        · exact ((hkeep hf).2 hs).1 hlocked
        · exact ((hkeep hf).2 hs).2 horiginal
      · intro hnot hchain
        refine hnot fun hf => ⟨fun hadv' => ?_, fun hs => ?_⟩
        · have := hratchetOk hf hadv'
          rw [ratchet_looser_iff hadv', not_and_or] at this
          exact this
        · have hnotlooser : ¬ Tighter s.state.direction (s.trailStop i) (s.ratchetStop i) :=
            fun hlooser => hstartBad hf hs hlooser ( List.IsChain.prefix hchain hdecisions.1.stops)
          rw [trail_looser_iff hs, not_or] at hnotlooser
          exact hnotlooser
    · push Not at hratchetOk
      obtain ⟨hf, hadv', hlooser⟩ := hratchetOk
      obtain ⟨hlocked, horiginal⟩ := (ratchet_looser_iff hadv').1 hlooser
      constructor
      · intro hkeep
        exact absurd ((hkeep hf).1 hadv') (by simp [hlocked, horiginal])
      · intro _ hchain
        exact hratchetBad hf hadv' hlooser
          ( List.IsChain.prefix ( List.IsChain.prefix hchain hdecisions.1.stops)
            runTpApproach_extends.stops)

/-- The invariant of the runs that keep the rule. -/
def LogOk (w : Watched) : Prop := ∀ d, parseDirection w.row.direction = some d → StopOk d w

/-- **The stored stop over a run**: it never loosens exactly on the runs in which every tick that moves
it twice ends with the tighter of the two. -/
theorem neverLoosens_iff (row : SetupRow) (ticks : List WatcherInput) :
    AllStates tickOnce NeverLoosens (.start row) ticks ↔
      AllSteps tickOnce KeepsTightest (.start row) ticks := by
  apply allStates_iff_allSteps (J := LogOk) (K := fun _ => True)
  · intro w h
    unfold NeverLoosens
    split
    · rename_i d hd
      exact (h d hd).chain
    · trivial
  · intro w i h _ hkeep d hd
    rw [(tickOnce_extends w i).direction] at hd
    exact (tickOnce_stop hd (h d hd)).1 hkeep
  · intro w i h _ hnot hloose
    -- a tick that breaks the rule has read a direction
    have hdir : ∃ d, parseDirection w.row.direction = some d := by
      unfold KeepsTightest at hnot
      push Not at hnot
      obtain ⟨s, hsnap, -⟩ := hnot
      exact ⟨_, (buildState_spec (snapshot_eq_some.1 hsnap).2.2.1).1⟩
    obtain ⟨d, hd⟩ := hdir
    rw [NeverLoosens, (tickOnce_extends w i).direction, hd] at hloose
    exact (tickOnce_stop hd (h d hd)).2 hnot hloose
  · intro d _
    constructor
    · cases hsl : row.currentSl <;> simp [Watched.start, hsl]
    · cases hsl : row.currentSl <;> simp [Watched.start, hsl]
  · exact fun _ _ => trivial

/-- A long from 100 that trails at 200, with its stop already at 190. -/
def trailing : SetupRow := { longFrom100Row with
  koruma := some 190
  currentSl := some 190
  ratchetReferencePrice := some 200
  ratchetCumulativePct := some 50
  ratchetLastUpdateAt := some 0
  trailMode := true
  trailAnchor := some 200
  aiAdvisedTpIdx := some 1 }

/-- The next day, at 202. -/
def up1 : WatcherInput := ⟨fun _ _ => some ⟨202, 202, 86400⟩, 86400, fallbackConfig, defaultLlmJudge⟩

/-- The trail puts the stop at 200.384, the ratchet puts it back to 190. -/
theorem trail_then_ratchet_loosens :
    ¬ AllStates tickOnce NeverLoosens (.start trailing) [up1]
    ∧ (run tickOnce (.start trailing) [up1]).stops = [190, 25048 / 125, 190] := by
  decide +kernel

end Qtss.Worker
