import Qtss.Pivots.Engine
/-
# The engine against the batch helper (`qtss-pivots/src/engine.rs:63`, `zigzag.rs:245`)

The engine keeps its own list of each level's pivots and replaces the last one under a comparison
(`>=`, `<=`) that is weaker than the detector's (`>`, `<`). The two never part: the detector pushes a
pivot of the head's kind only when it is strictly more extreme, so the engine's check always passes.

| here | there |
| --- | --- |
| `samples`         | the samples `on_bar` builds, numbered by `bar_index` (:75) |
| `PivotEngine.Read` | the engine after `bars`, none of them refused |
-/

namespace Qtss.Pivots
open Runs

variable {P : Type*}

/-- The bars as the samples the engine makes of them. -/
def samples (bars : List (Bar P)) : List (Sample P) :=
  bars.mapIdx fun i bar => ⟨i, bar.openTime, bar.high, bar.low, bar.volume⟩

theorem samples_concat (bars : List (Bar P)) (bar : Bar P) :
    samples (bars ++ [bar]) =
      samples bars ++ [⟨bars.length, bar.openTime, bar.high, bar.low, bar.volume⟩] := by
  simp [samples, List.mapIdx_append]

/-- All but the last entry of `older` are entries of `newer`, under the same places. -/
def Extends {α : Type*} (older newer : List α) : Prop :=
  older.dropLast <+: newer.dropLast ∧ older.length ≤ newer.length

section lists
variable {α : Type*} {xs ys zs : List α}

theorem Extends.refl (xs : List α) : Extends xs xs := ⟨List.prefix_refl _, le_rfl⟩

theorem Extends.trans (h : Extends xs ys) (h' : Extends ys zs) : Extends xs zs :=
  ⟨h.1.trans h'.1, h.2.trans h'.2⟩

theorem extends_concat (xs : List α) (x : α) : Extends xs (xs ++ [x]) := by
  refine ⟨?_, by simp⟩
  rw [List.dropLast_concat]
  exact List.dropLast_prefix xs

theorem extends_replace (xs : List α) (x y : α) : Extends (xs ++ [x]) (xs ++ [y]) := by
  constructor
  · simp
  · simp

end lists

variable [LinearOrder P]

/-! ## One pushed pivot -/

section confirm
variable {level : PivotLevel} {confirmed stored : List (Pivot P)} {cp : ConfirmedPivot P}
  {pivot : Pivot P}

/-- A pushed pivot goes on top of the level's list, or in the place of its last entry. -/
theorem extends_confirm (h : confirm level confirmed cp = some (stored, pivot)) :
    Extends confirmed stored := by
  unfold confirm at h
  split at h
  · rename_i last hlast
    obtain ⟨hlast, -⟩ := Option.filter_eq_some_iff.1 hlast
    obtain ⟨before, rfl⟩ := List.getLast?_eq_some_iff.1 hlast
    simp only [List.dropLast_concat] at h
    split at h
    · cases h
    · simp only [Option.some.injEq, Prod.mk.injEq] at h
      obtain ⟨rfl, -⟩ := h
      exact extends_replace before last _
  · simp only [Option.some.injEq, Prod.mk.injEq] at h
    obtain ⟨rfl, -⟩ := h
    exact extends_concat confirmed _

end confirm

section engine
variable [Sub P] [Zero P] {z : ZigZag P} {s : Sample P} {i : ℕ} {e : PivotEngine P}

/-- The detector's pivots go on alternating: a new head replaces one of its own kind. -/
theorem ZigZag.alternates_push (h : z.Fed i) (halt : z.pivots.IsChain (·.kind ≠ ·.kind)) :
    (z.push s).1.pivots.IsChain (·.kind ≠ ·.kind) := by
  by_cases htakes : ∃ k, z.Takes s k
  · obtain ⟨k, hk⟩ := htakes
    obtain ⟨hpivots, -, -⟩ := ZigZag.push_of_takes hk
    rw [hpivots]
    rcases h.base_cases k with ⟨older, A, hz, hkind, -, hbase⟩ | ⟨hother, hbase⟩
    · rw [hz, List.isChain_append] at halt
      rw [hbase, List.isChain_append]
      refine ⟨halt.1, List.isChain_singleton _, ?_⟩
      intro B hB C hC
      obtain rfl := Option.some.inj hC
      have hBA : B.kind ≠ A.kind := halt.2.2 B hB A rfl
      rwa [hkind] at hBA
    · rw [hbase, List.isChain_append]
      refine ⟨halt, List.isChain_singleton _, ?_⟩
      intro B hB C hC
      obtain rfl := Option.some.inj hC
      exact hother B hB
  · obtain ⟨hpivots, -, -⟩ := ZigZag.push_of_not_takes (z := z) (s := s) fun k hk => htakes ⟨k, hk⟩
    rwa [hpivots]

/-- A bar, refused or not, leaves all but the last pivot of each level in place. -/
theorem extends_step (e : PivotEngine P) (bar : Bar P) (level : PivotLevel) :
    Extends (e.confirmed level) ((e.step bar).confirmed level) := by
  by_cases hacc : e.Accepts bar
  · obtain ⟨-, -, hconfirmed⟩ := step_accepted hacc
    rw [hconfirmed]
    rcases hr : ((e.zigzags level).push (e.sample bar)).2.bind (confirm level (e.confirmed level)) with
      _ | ⟨stored, pivot⟩
    · exact Extends.refl _
    · obtain ⟨cp, -, hcp⟩ := Option.bind_eq_some_iff.1 hr
      exact extends_confirm hcp
  · rw [step_rejected hacc]
    exact Extends.refl _

theorem extends_run (e : PivotEngine P) (bars : List (Bar P)) (level : PivotLevel) :
    Extends (e.confirmed level) ((run PivotEngine.step e bars).confirmed level) := by
  induction bars generalizing e with
  | nil => exact Extends.refl _
  | cons bar bars ih =>
    rw [run_cons]
    exact (extends_step e bar level).trans (ih (e.step bar))

/-! ## The run -/

/-- The engine has accepted `bars`, all of them and in this order. -/
structure PivotEngine.Read (config : PivotConfig) (bars : List (Bar P)) (e : PivotEngine P) :
    Prop where
  index : e.barIndex = bars.length
  lastTime : e.lastTime = bars.getLast?.map (·.openTime)
  batch : ∀ level, e.zigzags level =
    (samples bars).foldl (fun z s => (z.push s).1) (.withLength (config.lengths level))
  alternates : ∀ level, (e.zigzags level).pivots.IsChain (·.kind ≠ ·.kind)
  sound : e.Sound

variable {config : PivotConfig} {bars : List (Bar P)} {bar : Bar P}

theorem read_new (h : PivotEngine.new config = .ok e) : e.Read config [] := by
  have hsound := (sound_new h).1
  unfold PivotEngine.new at h
  split at h
  · cases h
  · cases h
    exact ⟨rfl, rfl, fun _ => rfl, fun _ => List.isChain_nil, hsound⟩

theorem PivotEngine.Read.accepts (h : e.Read config bars)
    (hmono : (bars ++ [bar]).Pairwise (·.openTime ≤ ·.openTime)) : e.Accepts bar := by
  intro prev hprev
  rw [h.lastTime] at hprev
  obtain ⟨last, hlast, rfl⟩ := Option.map_eq_some_iff.1 hprev
  rw [List.pairwise_append] at hmono
  have hle : last.openTime ≤ bar.openTime :=
    hmono.2.2 last (List.mem_of_getLast? hlast) bar (List.mem_singleton_self bar)
  exact not_lt.2 hle

/-- **One bar**: the detectors go on as the batch helper's. -/
theorem read_step (h : e.Read config bars)
    (hmono : (bars ++ [bar]).Pairwise (·.openTime ≤ ·.openTime)) :
    (e.step bar).Read config (bars ++ [bar]) := by
  have hacc := h.accepts hmono
  obtain ⟨hindex, hzigzags, -⟩ := step_accepted hacc
  have hsample : e.sample bar = ⟨bars.length, bar.openTime, bar.high, bar.low, bar.volume⟩ := by
    rw [PivotEngine.sample, h.index]
  have hlast : (e.step bar).lastTime = some bar.openTime := by
    rw [PivotEngine.step, PivotEngine.onBar, if_neg (not_not_intro hacc)]
  refine ⟨?_, ?_, ?_, ?_, sound_step h.sound bar⟩
  · simp [hindex, h.index]
  · simp [hlast]
  · intro level
    rw [hzigzags, samples_concat, List.foldl_concat, ← h.batch, hsample]
  · intro level
    rw [hzigzags]
    exact ZigZag.alternates_push (h.sound.fed level) (h.alternates level)

theorem read_run (h : e.Read config bars) (more : List (Bar P))
    (hmono : (bars ++ more).Pairwise (·.openTime ≤ ·.openTime)) :
    (run PivotEngine.step e more).Read config (bars ++ more) := by
  induction more generalizing e bars with
  | nil => rwa [List.append_nil]
  | cons bar more ih =>
    rw [List.append_cons] at hmono ⊢
    rw [run_cons]
    exact ih (read_step h (List.pairwise_append.1 hmono).1) hmono

omit [LinearOrder P] [Sub P] [Zero P] in
/-- The list the level keeps, seen through its detector. -/
theorem PivotEngine.Sound.sorted (h : e.Sound) (level : PivotLevel) :
    (e.confirmed level).Pairwise (·.barIndex < ·.barIndex) := by
  have hsorted := (h.fed level).sorted
  have hkeys := congrArg (List.map Prod.fst) (h.mirrors level).keys
  rw [List.map_map, List.map_map] at hkeys
  have hmap : ((e.zigzags level).pivots.map (Prod.fst ∘ ConfirmedPivot.key)).Pairwise (· < ·) :=
    List.pairwise_map.2 hsorted
  rw [← hkeys] at hmap
  exact List.pairwise_map.1 hmap

omit [LinearOrder P] [Sub P] [Zero P] in
theorem PivotEngine.Sound.alternates (h : e.Sound) {level : PivotLevel}
    (halt : (e.zigzags level).pivots.IsChain (·.kind ≠ ·.kind)) :
    (e.confirmed level).IsChain (·.kind ≠ ·.kind) := by
  have hkeys := congrArg (List.map Prod.snd) (h.mirrors level).keys
  rw [List.map_map, List.map_map] at hkeys
  have hmap : ((e.zigzags level).pivots.map (Prod.snd ∘ ConfirmedPivot.key)).IsChain (· ≠ ·) :=
    (List.isChain_map _).2 halt
  rw [← hkeys] at hmap
  exact (List.isChain_map _).1 hmap

/-- **The engine is the batch helper, bar by bar**: after `seen`, and whatever comes `later`. -/
theorem confirmed_eq_computePivots (config : PivotConfig) (e : PivotEngine P)
    (h : PivotEngine.new config = .ok e) (seen later : List (Bar P))
    (hmono : (seen ++ later).Pairwise (·.openTime ≤ ·.openTime)) (level : PivotLevel) :
    let confirmed (bars : List (Bar P)) := (run PivotEngine.step e bars).confirmed level
    (confirmed seen).map Pivot.mark =
        (computePivots (samples seen) (config.lengths level)).map ConfirmedPivot.mark
      ∧ (confirmed seen).IsChain (·.kind ≠ ·.kind)
      ∧ (confirmed seen).Pairwise (·.barIndex < ·.barIndex)
      ∧ (confirmed seen).dropLast <+: confirmed (seen ++ later)
      ∧ (confirmed seen).length ≤ (confirmed (seen ++ later)).length := by
  have hread : (run PivotEngine.step e seen).Read config seen := by
    have hseen := read_run (read_new h) seen
    rw [List.nil_append] at hseen
    exact hseen (List.pairwise_append.1 hmono).1
  have hsound := hread.sound
  have hext := extends_run (run PivotEngine.step e seen) later level
  have hrun : run PivotEngine.step (run PivotEngine.step e seen) later =
      run PivotEngine.step e (seen ++ later) := by
    simp [run, List.foldl_append]
  rw [hrun] at hext
  refine ⟨?_, hsound.alternates (hread.alternates level), hsound.sorted level, ?_, hext.2⟩
  · rw [computePivots, ← hread.batch level]
    exact hsound.mirrors level
  · exact hext.1.trans (List.dropLast_prefix _)

end engine

/-- A high that the fourth bar ties and the fifth one exceeds, then a fall. -/
def tiedBars : List (Bar ℚ) :=
  [⟨0, 11, 10, 1⟩, ⟨60, 12, 11, 1⟩, ⟨120, 11, 10, 1⟩, ⟨180, 12, 11, 1⟩, ⟨180, 13, 12, 1⟩,
    ⟨240, 9, 8, 1⟩]

theorem tied_batch : ∃ e, PivotEngine.new doubling = .ok e
    ∧ ((run PivotEngine.step e tiedBars).confirmed .l0).map Pivot.mark =
        (computePivots (samples tiedBars) (doubling.lengths .l0)).map ConfirmedPivot.mark :=
  ⟨_, rfl, (confirmed_eq_computePivots doubling _ rfl tiedBars [] (by decide +kernel) .l0).1⟩

end Qtss.Pivots
