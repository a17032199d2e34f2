import Mathlib.Data.List.Pairwise
import Qtss.Wyckoff.SideMutex
/-
# The phases of one schematic

"Wyckoff doctrine: A → B → C → D → E never overlaps within one schematic. Inputs to classify_side already enforce this
by construction". They do not: Phase E starts on the bar where Phase D ends, so without a BU or LPS after the SOS the
two start together; a PS after the Spring puts Phase A behind Phase C; and Phase E runs for 90 bars and more into the
cycles that follow, where nothing outranks it. `phase_order_iff` says when none of this happens.
-/

namespace Qtss.Wyckoff

variable {toF64 : ℚ → Option F64} {bars : List Bar} {tapeEndBar : ℕ} {direction : WyckoffSchematicDirection}
  {events group group' : List WyckoffEvent} {b : PhaseBounds} {s t x : WyckoffSchematicSpan}
  {spans spans' : List WyckoffSchematicSpan} {m bar : ℕ}

/-- The cycles of a side, in bar order. -/
def cyclesOf (events : List WyckoffEvent) (direction : WyckoffSchematicDirection) : List (List WyckoffEvent) :=
  splitIntoCycles ((events.insertionSort fun e e' => e.barIndex ≤ e'.barIndex).filter
    fun e => e.variant = variantOf direction)

theorem sideSpans_eq : sideSpans toF64 events bars tapeEndBar direction =
    (cyclesOf events direction).flatMap (classifySide toF64 bars tapeEndBar direction) := rfl

/-! ## The sequencing pass, span by span -/

/-- The span after all of `spans` have taken over what they take over. -/
def settled (spans : List WyckoffSchematicSpan) (s : WyckoffSchematicSpan) : WyckoffSchematicSpan :=
  spans.foldl (fun y x => yieldTo x y) s

theorem settled_cutOf (spans : List WyckoffSchematicSpan) (s : WyckoffSchematicSpan) : CutOf s (settled spans s) :=
  foldl_yieldTo_cutOf spans s

theorem endBar_settled_lt : (settled spans s).endBar < m ↔ s.endBar < m ∨ ∃ x ∈ spans, TakesOver s m x :=
  endBar_foldl_yieldTo_lt spans

theorem yieldTo_eq (x y : WyckoffSchematicSpan) : yieldTo x y = { y with endBar := (yieldTo x y).endBar } := by
  unfold yieldTo
  split <;> rfl

theorem settled_eq (spans : List WyckoffSchematicSpan) (s : WyckoffSchematicSpan) :
    settled spans s = { s with endBar := (settled spans s).endBar } := by
  induction spans generalizing s with
  | nil => rfl
  | cons x spans ih =>
    have hcons : settled (x :: spans) s = settled spans (yieldTo x s) := rfl
    rw [hcons, ih, yieldTo_eq x s]

/-- Only the spans that take over count. -/
theorem settled_congr (h : ∀ m, (∃ x ∈ spans, TakesOver s m x) ↔ ∃ x ∈ spans', TakesOver s m x) :
    settled spans s = settled spans' s := by
  have hend : (settled spans s).endBar = (settled spans' s).endBar := by
    refine eq_of_forall_gt_iff fun m => ?_
    rw [endBar_settled_lt, endBar_settled_lt, h m]
  rw [settled_eq spans, settled_eq spans', hend]

theorem sequenced_eq (pre : List WyckoffSchematicSpan) (h : (pre ++ spans).Pairwise bySideAndStart) :
    sequenced spans = spans.map (settled (pre ++ spans)) := by
  induction spans generalizing pre with
  | nil => rfl
  | cons s later ih =>
    have hs : settled later s = settled (pre ++ s :: later) s := settled_congr fun m => takesOver_later_iff h
    have hlater := ih (pre ++ [s]) (by simpa using h)
    rw [List.append_assoc, List.singleton_append] at hlater
    rw [sequenced, List.map_cons, hlater, ← hs]
    rfl

/-! ## One variant -/

variable (direction) in
/-- Events of one variant give spans on one side only. -/
theorem sideSpans_eq_nil {variant : String} (h : ∀ e ∈ events, e.variant = variant) (hne : variant ≠ variantOf direction) :
    sideSpans toF64 events bars tapeEndBar direction = [] := by
  have hnone : (events.insertionSort fun e e' => e.barIndex ≤ e'.barIndex).filter
      (fun e => e.variant = variantOf direction) = [] := by
    refine List.filter_eq_nil_iff.2 fun e he => ?_
    rw [h e ((List.mem_insertionSort _).1 he)]
    simpa using hne
  rw [sideSpans_eq, cyclesOf, hnone]
  rfl

theorem variantOf_opposite_ne : variantOf direction.opposite ≠ variantOf direction := by
  cases direction <;> decide

theorem clipped_eq {variant : String} (h : ∀ e ∈ events, e.variant = variant) :
    clipped toF64 events bars tapeEndBar direction = sideSpans toF64 events bars tapeEndBar direction := by
  rw [clipped]
  by_cases hv : variant = variantOf direction
  · rw [sideSpans_eq_nil direction.opposite h (hv ▸ variantOf_opposite_ne.symm)]
    exact List.map_id _
  · rw [sideSpans_eq_nil _ h hv]
    rfl

/-- The spans of both sides, of which one has none. -/
theorem laidOut_perm {variant : String} (h : ∀ e ∈ events, e.variant = variant) :
    (laidOut toF64 events bars tapeEndBar).Perm (sideSpans toF64 events bars tapeEndBar .accumulation ++
      sideSpans toF64 events bars tapeEndBar .distribution) := by
  rw [laidOut, clipped_eq h, clipped_eq h]
  exact (List.perm_insertionSort _ _).trans (List.perm_insertionSort _ _)

theorem mem_laidOut_iff {variant : String} (h : ∀ e ∈ events, e.variant = variant) :
    s ∈ laidOut toF64 events bars tapeEndBar ↔ s ∈ sideSpans toF64 events bars tapeEndBar s.direction := by
  rw [mem_laidOut, clipped_eq h]

/-- **The output**: each span settled among those of its side. -/
theorem classifySchematicPhases_map {variant : String} (h : ∀ e ∈ events, e.variant = variant) :
    classifySchematicPhases toF64 events bars tapeEndBar = (laidOut toF64 events bars tapeEndBar).map
      fun s => settled (sideSpans toF64 events bars tapeEndBar s.direction) s := by
  have hsorted : (laidOut toF64 events bars tapeEndBar).Pairwise bySideAndStart := List.pairwise_insertionSort _ _
  have hseq : sequenced (laidOut toF64 events bars tapeEndBar) =
      (laidOut toF64 events bars tapeEndBar).map (settled (laidOut toF64 events bars tapeEndBar)) :=
    sequenced_eq [] hsorted
  rw [classifySchematicPhases_eq, hseq]
  refine List.map_congr_left fun s _ => settled_congr fun m => ?_
  constructor
  · rintro ⟨x, hx, htake⟩
    have hx' := (mem_laidOut_iff h).1 hx
    rw [htake.1] at hx'
    exact ⟨x, hx', htake⟩
  · rintro ⟨x, hx, htake⟩
    refine ⟨x, (mem_laidOut_iff h).2 ?_, htake⟩
    rwa [htake.1]

/-! ## Where the spans of a cycle lie -/

/-- What `classify_side` says of a span and the events of its cycle: it starts among them, and a phase before E also
ends among them. -/
structure Among (group : List WyckoffEvent) (s : WyckoffSchematicSpan) : Prop where
  after : ∃ e ∈ group, e.barIndex ≤ s.startBar
  before : ∃ e ∈ group, s.startBar ≤ e.barIndex
  ends : s.phase ≠ .e → ∃ e ∈ group, s.endBar ≤ e.barIndex

theorem exists_of_lastBar {events' : List WyckoffEvent} (hsub : events' ⊆ events) (h : lastBar events' = some bar) :
    ∃ e ∈ events, e.barIndex = bar := by
  obtain ⟨e, he, rfl⟩ := Option.map_eq_some_iff.1 h
  exact ⟨e, hsub (List.mem_of_getLast? he), rfl⟩

theorem byKind_subset (kind : WyckoffEventKind) (events : List WyckoffEvent) : byKind kind events ⊆ events :=
  List.filter_subset_self _

theorem fromBar_subset (bar : Option ℕ) (events : List WyckoffEvent) : fromBar bar events ⊆ events :=
  List.filter_subset_self _

/-- Every anchor is the bar of an event. -/
structure Anchored (events : List WyckoffEvent) (b : PhaseBounds) : Prop where
  aStart : ∀ bar, b.aStart = some bar → ∃ e ∈ events, e.barIndex = bar
  aEnd : ∀ bar, b.aEnd = some bar → ∃ e ∈ events, e.barIndex = bar
  cStart : ∀ bar, b.cStart = some bar → ∃ e ∈ events, e.barIndex = bar
  cEnd : ∀ bar, b.cEnd = some bar → ∃ e ∈ events, e.barIndex = bar
  dStart : ∀ bar, b.dStart = some bar → ∃ e ∈ events, e.barIndex = bar
  dEnd : ∀ bar, b.dEnd = some bar → ∃ e ∈ events, e.barIndex = bar

variable (direction events) in
theorem anchored_phaseBounds : Anchored events (phaseBounds direction events) := by
  have hc : ∀ bar, (phaseBounds direction events).cStart = some bar → ∃ e ∈ events, e.barIndex = bar :=
    fun bar h => exists_of_firstBar h
  have hd : ∀ bar, (phaseBounds direction events).dStart = some bar → ∃ e ∈ events, e.barIndex = bar := by
    intro bar h
    obtain ⟨e, he, rfl⟩ := Option.map_eq_some_iff.1 h
    exact ⟨e, byKind_subset _ _ (List.mem_of_find?_eq_some he), rfl⟩
  have hfrom : ∀ {start kind bar}, lastBar (fromBar start (byKind kind events)) = some bar →
      ∃ e ∈ events, e.barIndex = bar :=
    fun h => exists_of_lastBar (List.Subset.trans (fromBar_subset _ _) (byKind_subset _ _)) h
  refine ⟨?_, ?_, hc, ?_, hd, ?_⟩
  · intro bar h
    rcases Option.or_eq_some_iff.1 h with h | ⟨-, h⟩
    · exact exists_of_firstBar h
    · exact exists_of_firstBar h
  · intro bar h
    rcases Option.or_eq_some_iff.1 h with h | ⟨-, h⟩
    · exact exists_of_lastBar (List.Subset.trans (List.filter_subset_self _) (byKind_subset _ _)) h
    · exact exists_of_firstBar h
  · intro bar h
    rcases Option.or_eq_some_iff.1 h with h | ⟨-, h⟩
    · exact hfrom h
    · exact hc bar h
  · intro bar h
    rcases Option.or_eq_some_iff.1 h with h | ⟨-, h⟩
    · rcases Option.or_eq_some_iff.1 h with h | ⟨-, h⟩
      · exact hfrom h
      · exact hfrom h
    · exact hd bar h

/-! ### One phase each -/

theorem mem_phaseA : s ∈ phaseA toF64 bars tapeEndBar direction events b →
    s.phase = .a ∧ b.aStart = some s.startBar ∧ b.aEnd = some s.endBar ∧ s.startBar ≤ s.endBar := by
  intro h
  unfold phaseA at h
  split at h
  next hs he =>
    split at h
    next hle =>
      rw [List.mem_singleton.1 h]
      exact ⟨rfl, hs, he, hle⟩
    next => simp at h
  next => simp at h

theorem mem_phaseB : s ∈ phaseB toF64 bars tapeEndBar direction events b →
    s.phase = .b ∧ ∃ a c, b.aEnd = some a ∧ b.cStart = some c ∧ s.startBar = a + 1 ∧ s.endBar = c - 1 ∧
      s.startBar < s.endBar := by
  intro h
  unfold phaseB at h
  split at h
  next a c ha hc =>
    split at h
    next hlt =>
      rw [List.mem_singleton.1 h]
      exact ⟨rfl, a, c, ha, hc, rfl, rfl, hlt⟩
    next => simp at h
  next => simp at h

theorem mem_phaseC : s ∈ phaseC toF64 bars tapeEndBar direction events b →
    s.phase = .c ∧ b.cStart = some s.startBar ∧ b.cEnd = some s.endBar := by
  intro h
  unfold phaseC at h
  split at h
  next hs he =>
    rw [List.mem_singleton.1 h]
    exact ⟨rfl, hs, he⟩
  next => simp at h

theorem mem_phaseD : s ∈ phaseD toF64 bars tapeEndBar direction events b →
    s.phase = .d ∧ b.dStart = some s.startBar ∧ b.dEnd = some s.endBar := by
  intro h
  unfold phaseD at h
  split at h
  next hs he =>
    rw [List.mem_singleton.1 h]
    exact ⟨rfl, hs, he⟩
  next => simp at h

/-- The lookforward is positive: Phase E is there unless the tape ends where Phase D does. -/
theorem lt_phaseEEnd_iff (h : b.dEnd = some m) : m < phaseEEnd b tapeEndBar ↔ m < tapeEndBar := by
  simp only [phaseEEnd, h, Option.map_some, Option.getD_some, lt_min_iff]
  split <;> omega

theorem mem_phaseE : s ∈ phaseE toF64 bars tapeEndBar direction b →
    s.phase = .e ∧ b.dEnd = some s.startBar ∧ s.startBar < tapeEndBar := by
  intro h
  unfold phaseE at h
  split at h
  next e he =>
    split at h
    next hlt =>
      rw [List.mem_singleton.1 h]
      exact ⟨rfl, he, (lt_phaseEEnd_iff he).1 hlt⟩
    next => simp at h
  next => simp at h

theorem among_classifySide (h : s ∈ classifySide toF64 bars tapeEndBar direction group) : Among group s := by
  have hanchor := anchored_phaseBounds direction group
  unfold classifySide at h
  split at h
  · simp at h
  · simp only [List.mem_append] at h
    rcases h with (((h | h) | h) | h) | h
    · obtain ⟨-, hs, he, -⟩ := mem_phaseA h
      obtain ⟨e, hmem, hbar⟩ := hanchor.aStart _ hs
      obtain ⟨e', hmem', hbar'⟩ := hanchor.aEnd _ he
      exact ⟨⟨e, hmem, hbar.le⟩, ⟨e, hmem, hbar.ge⟩, fun _ => ⟨e', hmem', hbar'.ge⟩⟩
    · obtain ⟨-, a, c, ha, hc, hs, he, hlt⟩ := mem_phaseB h
      obtain ⟨e, hmem, hbar⟩ := hanchor.aEnd _ ha
      obtain ⟨e', hmem', hbar'⟩ := hanchor.cStart _ hc
      exact ⟨⟨e, hmem, by omega⟩, ⟨e', hmem', by omega⟩, fun _ => ⟨e', hmem', by omega⟩⟩
    · obtain ⟨-, hs, he⟩ := mem_phaseC h
      obtain ⟨e, hmem, hbar⟩ := hanchor.cStart _ hs
      obtain ⟨e', hmem', hbar'⟩ := hanchor.cEnd _ he
      exact ⟨⟨e, hmem, hbar.le⟩, ⟨e, hmem, hbar.ge⟩, fun _ => ⟨e', hmem', hbar'.ge⟩⟩
    · obtain ⟨-, hs, he⟩ := mem_phaseD h
      obtain ⟨e, hmem, hbar⟩ := hanchor.dStart _ hs
      obtain ⟨e', hmem', hbar'⟩ := hanchor.dEnd _ he
      exact ⟨⟨e, hmem, hbar.le⟩, ⟨e, hmem, hbar.ge⟩, fun _ => ⟨e', hmem', hbar'.ge⟩⟩
    · obtain ⟨hphase, hs, -⟩ := mem_phaseE h
      obtain ⟨e, hmem, hbar⟩ := hanchor.dEnd _ hs
      exact ⟨⟨e, hmem, hbar.le⟩, ⟨e, hmem, hbar.ge⟩, fun hne => absurd hphase hne⟩

/-! ## The order in a cycle -/

/-- The first PS (or climax) comes before the first Spring or UTAD and before the SOS or SOW that opens Phase D, and
Phase D ends on a later bar than it starts, unless the tape ends there. -/
structure InOrder (tapeEndBar : ℕ) (b : PhaseBounds) : Prop where
  a_c : ∀ s e c, b.aStart = some s → b.aEnd = some e → s ≤ e → b.cStart = some c → s < c
  a_d : ∀ s e d, b.aStart = some s → b.aEnd = some e → s ≤ e → b.dStart = some d → s < d
  d_e : ∀ d e, b.dStart = some d → b.dEnd = some e → e < tapeEndBar → d < e

theorem cEnd_lt_dStart {c d : ℕ} (hc : (phaseBounds direction events).cEnd = some c)
    (hd : (phaseBounds direction events).dStart = some d) : c < d := by
  obtain ⟨e, he, rfl⟩ := Option.map_eq_some_iff.1 hd
  have hafter := List.find?_some he
  rw [show ((lastBar (fromBar (firstBar (byKind (shakeoutKind direction) events)) (byKind .test events))).or
    (firstBar (byKind (shakeoutKind direction) events))) = some c from hc] at hafter
  simpa using hafter

theorem exists_cEnd {c : ℕ} (hc : (phaseBounds direction events).cStart = some c) :
    ∃ e, (phaseBounds direction events).cEnd = some e ∧ c ≤ e := by
  obtain ⟨e, he⟩ : ∃ e, (phaseBounds direction events).cEnd = some e := by
    refine Option.isSome_iff_exists.1 ?_
    have hor : (phaseBounds direction events).cEnd =
      (lastBar (fromBar (phaseBounds direction events).cStart (byKind .test events))).or
        (phaseBounds direction events).cStart := rfl
    rw [hor, hc, Option.isSome_or, Option.isSome_some, Bool.or_true]
  exact ⟨e, he, cStart_le_cEnd hc he⟩

theorem cStart_lt_dStart {c d : ℕ} (hc : (phaseBounds direction events).cStart = some c)
    (hd : (phaseBounds direction events).dStart = some d) : c < d := by
  obtain ⟨e, he, hce⟩ := exists_cEnd hc
  exact hce.trans_lt (cEnd_lt_dStart he hd)

theorem exists_dStart {e : ℕ} (he : (phaseBounds direction events).dEnd = some e) :
    ∃ d, (phaseBounds direction events).dStart = some d ∧ d ≤ e := by
  cases hd : (phaseBounds direction events).dStart with
  | some d => exact ⟨d, rfl, dStart_le_dEnd hd he⟩
  | none =>
    -- nothing comes from a bar that is not there
    have hor : (phaseBounds direction events).dEnd =
      ((lastBar (fromBar (phaseBounds direction events).dStart (byKind .bu events))).or
        (lastBar (fromBar (phaseBounds direction events).dStart (byKind .lps events)))).or
        (phaseBounds direction events).dStart := rfl
    rw [hor, hd] at he
    simp [fromBar, lastBar] at he

theorem exists_dEnd {d : ℕ} (hd : (phaseBounds direction events).dStart = some d) :
    ∃ e, (phaseBounds direction events).dEnd = some e ∧ d ≤ e := by
  obtain ⟨e, he⟩ : ∃ e, (phaseBounds direction events).dEnd = some e := by
    refine Option.isSome_iff_exists.1 ?_
    have hor : (phaseBounds direction events).dEnd =
      ((lastBar (fromBar (phaseBounds direction events).dStart (byKind .bu events))).or
        (lastBar (fromBar (phaseBounds direction events).dStart (byKind .lps events)))).or
        (phaseBounds direction events).dStart := rfl
    rw [hor, hd, Option.isSome_or, Option.isSome_some, Bool.or_true]
  exact ⟨e, he, dStart_le_dEnd hd he⟩

/-- The span of a phase, if the cycle has it. -/
def phaseSpans (toF64 : ℚ → Option F64) (bars : List Bar) (tapeEndBar : ℕ) (direction : WyckoffSchematicDirection)
    (group : List WyckoffEvent) : WyckoffSchematicPhase → List WyckoffSchematicSpan
  | .a => phaseA toF64 bars tapeEndBar direction group (phaseBounds direction group)
  | .b => phaseB toF64 bars tapeEndBar direction group (phaseBounds direction group)
  | .c => phaseC toF64 bars tapeEndBar direction group (phaseBounds direction group)
  | .d => phaseD toF64 bars tapeEndBar direction group (phaseBounds direction group)
  | .e => phaseE toF64 bars tapeEndBar direction (phaseBounds direction group)

theorem classifySide_eq : classifySide toF64 bars tapeEndBar direction group =
    [.a, .b, .c, .d, .e].flatMap (phaseSpans toF64 bars tapeEndBar direction group) := by
  simp only [List.flatMap_cons, List.flatMap_nil, List.append_nil, phaseSpans]
  unfold classifySide
  split
  next hnil =>
    rw [List.isEmpty_iff.1 hnil]
    rfl
  next => simp only [List.append_assoc]

theorem phase_of_mem {p : WyckoffSchematicPhase} (h : s ∈ phaseSpans toF64 bars tapeEndBar direction group p) :
    s.phase = p := by
  cases p with
  | a => exact (mem_phaseA h).1
  | b => exact (mem_phaseB h).1
  | c => exact (mem_phaseC h).1
  | d => exact (mem_phaseD h).1
  | e => exact (mem_phaseE h).1

theorem length_phaseSpans_le (p : WyckoffSchematicPhase) :
    (phaseSpans toF64 bars tapeEndBar direction group p).length ≤ 1 := by
  cases p with
  | a =>
    simp only [phaseSpans, phaseA]
    split
    · split <;> simp
    · simp
  | b =>
    simp only [phaseSpans, phaseB]
    split
    · split <;> simp
    · simp
  | c =>
    simp only [phaseSpans, phaseC]
    split <;> simp
  | d =>
    simp only [phaseSpans, phaseD]
    split <;> simp
  | e =>
    simp only [phaseSpans, phaseE]
    split
    · split <;> simp
    · simp

/-- A relation along the phases of a cycle, one pair of phases at a time. -/
theorem pairwise_classifySide {R : WyckoffSchematicSpan → WyckoffSchematicSpan → Prop} :
    (classifySide toF64 bars tapeEndBar direction group).Pairwise R ↔
      ∀ p q, schematicPhaseRank p < schematicPhaseRank q →
        ∀ s ∈ phaseSpans toF64 bars tapeEndBar direction group p,
          ∀ t ∈ phaseSpans toF64 bars tapeEndBar direction group q, R s t := by
  have hone : ∀ p, (phaseSpans toF64 bars tapeEndBar direction group p).Pairwise R := by
    intro p
    have hlen : (phaseSpans toF64 bars tapeEndBar direction group p).length ≤ 1 := length_phaseSpans_le p
    generalize phaseSpans toF64 bars tapeEndBar direction group p = l at hlen ⊢
    rcases l with _ | ⟨s, _ | ⟨t, l⟩⟩
    · exact List.Pairwise.nil
    · exact List.pairwise_singleton R s
    · simp at hlen
  rw [classifySide_eq, List.pairwise_flatMap]
  constructor
  · rintro ⟨-, h⟩ p q hpq
    have hsub : [p, q].Sublist [.a, .b, .c, .d, .e] := by
      cases p <;> cases q <;> first | decide | exact absurd hpq (by decide)
    exact List.pairwise_iff_forall_sublist.1 h hsub
  · intro h
    refine ⟨fun p _ => hone p, ?_⟩
    have hall : [WyckoffSchematicPhase.a, .b, .c, .d, .e].Pairwise fun p q =>
        schematicPhaseRank p < schematicPhaseRank q := by decide
    exact hall.imp fun {p q} hpq => h p q hpq

theorem ranks_classifySide : (classifySide toF64 bars tapeEndBar direction group).Pairwise fun s t => s.rank < t.rank := by
  refine pairwise_classifySide.2 fun p q hpq s hs t ht => ?_
  rw [WyckoffSchematicSpan.rank, WyckoffSchematicSpan.rank, phase_of_mem hs, phase_of_mem ht]
  exact hpq

/-- The phases of a cycle start one after the other exactly when its anchors are in order. -/
theorem starts_classifySide_iff :
    (classifySide toF64 bars tapeEndBar direction group).Pairwise (fun s t => s.startBar < t.startBar) ↔
      InOrder tapeEndBar (phaseBounds direction group) := by
  rw [pairwise_classifySide]
  constructor
  · intro h
    refine ⟨fun s e c hs he hle hc => ?_, fun s e d hs he hle hd => ?_, fun d e hd he htape => ?_⟩
    · obtain ⟨cEnd, hcEnd, -⟩ := exists_cEnd hc
      exact h .a .c (by decide) (mkSpan toF64 bars tapeEndBar direction .a s e _)
        (by simp only [phaseSpans, phaseA, hs, he, if_pos hle]; exact List.mem_singleton_self _)
        (mkSpan toF64 bars tapeEndBar direction .c c cEnd _)
        (by simp only [phaseSpans, phaseC, hc, hcEnd]; exact List.mem_singleton_self _)
    · obtain ⟨dEnd, hdEnd, -⟩ := exists_dEnd hd
      exact h .a .d (by decide) (mkSpan toF64 bars tapeEndBar direction .a s e _)
        (by simp only [phaseSpans, phaseA, hs, he, if_pos hle]; exact List.mem_singleton_self _)
        (mkSpan toF64 bars tapeEndBar direction .d d dEnd _)
        (by simp only [phaseSpans, phaseD, hd, hdEnd]; exact List.mem_singleton_self _)
    · have hlt : e < phaseEEnd (phaseBounds direction group) tapeEndBar := (lt_phaseEEnd_iff he).2 htape
      exact h .d .e (by decide) (mkSpan toF64 bars tapeEndBar direction .d d e _)
        (by simp only [phaseSpans, phaseD, hd, he]; exact List.mem_singleton_self _)
        (mkSpan toF64 bars tapeEndBar direction .e e (phaseEEnd (phaseBounds direction group) tapeEndBar) _)
        (by simp only [phaseSpans, phaseE, he, if_pos hlt]; exact List.mem_singleton_self _)
  · intro h p q hpq s hs t ht
    cases p <;> cases q <;> first | exact absurd hpq (by decide) | skip
    · obtain ⟨-, hsA, hsE, hle⟩ := mem_phaseA hs
      obtain ⟨-, a, c, ha, -, hstart, -, -⟩ := mem_phaseB ht
      rw [hsE] at ha
      obtain rfl := Option.some.inj ha
      omega
    · obtain ⟨-, hsA, hsE, hle⟩ := mem_phaseA hs
      exact h.a_c _ _ _ hsA hsE hle (mem_phaseC ht).2.1
    · obtain ⟨-, hsA, hsE, hle⟩ := mem_phaseA hs
      exact h.a_d _ _ _ hsA hsE hle (mem_phaseD ht).2.1
    · obtain ⟨-, hsA, hsE, hle⟩ := mem_phaseA hs
      obtain ⟨d, hd, hde⟩ := exists_dStart (mem_phaseE ht).2.1
      exact (h.a_d _ _ _ hsA hsE hle hd).trans_le hde
    · obtain ⟨-, a, c, -, hc, -, hend, hlt⟩ := mem_phaseB hs
      have hct : c = t.startBar := Option.some.inj (hc.symm.trans (mem_phaseC ht).2.1)
      omega
    · obtain ⟨-, a, c, -, hc, -, hend, hlt⟩ := mem_phaseB hs
      have hct : c < t.startBar := cStart_lt_dStart hc (mem_phaseD ht).2.1
      omega
    · obtain ⟨-, a, c, -, hc, -, hend, hlt⟩ := mem_phaseB hs
      obtain ⟨d, hd, hde⟩ := exists_dStart (mem_phaseE ht).2.1
      have hct : c < d := cStart_lt_dStart hc hd
      omega
    · exact cStart_lt_dStart (mem_phaseC hs).2.1 (mem_phaseD ht).2.1
    · obtain ⟨d, hd, hde⟩ := exists_dStart (mem_phaseE ht).2.1
      exact (cStart_lt_dStart (mem_phaseC hs).2.1 hd).trans_le hde
    · obtain ⟨-, hd, he⟩ := mem_phaseD hs
      obtain ⟨-, he', htape⟩ := mem_phaseE ht
      exact h.d_e _ _ hd he' htape

/-! ## From one cycle to the next -/

/-- `s` is over when `t` starts, or gives way to it on its last bar. -/
def Clear (s t : WyckoffSchematicSpan) : Prop :=
  s.endBar < t.startBar ∨ s.endBar = t.startBar ∧ s.startBar < s.endBar ∧ s.rank < t.rank

/-- The last phase of a cycle and the first one of another. -/
def HandsOver (l l' : List WyckoffSchematicSpan) : Prop :=
  ∀ s ∈ l.getLast?, ∀ t ∈ l'.head?, Clear s t

/-! ### Read off the anchors -/

/-- A phase and its bars. -/
structure PhaseExtent where
  phase : WyckoffSchematicPhase
  startBar : ℕ
  endBar : ℕ

def WyckoffSchematicSpan.extent (s : WyckoffSchematicSpan) : PhaseExtent := ⟨s.phase, s.startBar, s.endBar⟩

def between (phase : WyckoffSchematicPhase) : Option ℕ → Option ℕ → Option PhaseExtent
  | some s, some e => some ⟨phase, s, e⟩
  | _, _ => none

/-- The bars that the anchors leave to a phase. -/
def PhaseBounds.extent (b : PhaseBounds) (tapeEndBar : ℕ) : WyckoffSchematicPhase → Option PhaseExtent
  | .a => (between .a b.aStart b.aEnd).filter fun r => r.startBar ≤ r.endBar
  | .b => (between .b (b.aEnd.map (· + 1)) (b.cStart.map (· - 1))).filter fun r => r.startBar < r.endBar
  | .c => between .c b.cStart b.cEnd
  | .d => between .d b.dStart b.dEnd
  | .e => (between .e b.dEnd (some (phaseEEnd b tapeEndBar))).filter fun r => r.startBar < r.endBar

def PhaseBounds.firstPhase (b : PhaseBounds) (tapeEndBar : ℕ) : Option PhaseExtent :=
  [.a, .b, .c, .d, .e].findSome? (b.extent tapeEndBar)

def PhaseBounds.lastPhase (b : PhaseBounds) (tapeEndBar : ℕ) : Option PhaseExtent :=
  [.e, .d, .c, .b, .a].findSome? (b.extent tapeEndBar)

/-- The last phase of a cycle is over when the first phase of a later one starts, or gives way to it on its last bar. -/
def CyclesApart (tapeEndBar : ℕ) (b b' : PhaseBounds) : Prop :=
  ∀ r ∈ b.lastPhase tapeEndBar, ∀ r' ∈ b'.firstPhase tapeEndBar, r.endBar < r'.startBar ∨
    r.endBar = r'.startBar ∧ r.startBar < r.endBar ∧ schematicPhaseRank r.phase < schematicPhaseRank r'.phase

/-- A span that is made when its bars meet a condition. -/
theorem extent_ite {p : PhaseExtent → Prop} [DecidablePred p] (s : WyckoffSchematicSpan) :
    (if p s.extent then [s] else []).map (·.extent) = ((some s.extent).filter p).toList := by
  rw [Option.filter_some, apply_ite (List.map _), apply_ite Option.toList]
  simp only [decide_eq_true_eq]
  rfl

theorem extent_phaseSpans (p : WyckoffSchematicPhase) :
    (phaseSpans toF64 bars tapeEndBar direction group p).map (·.extent) =
      ((phaseBounds direction group).extent tapeEndBar p).toList := by
  generalize hb : phaseBounds direction group = b
  cases p with
  | a =>
    simp only [phaseSpans, phaseA, PhaseBounds.extent, hb]
    rcases b.aStart with _ | s <;> rcases b.aEnd with _ | e <;> try rfl
    exact extent_ite (p := fun r => r.startBar ≤ r.endBar) (mkSpan toF64 bars tapeEndBar direction .a s e _)
  | b =>
    simp only [phaseSpans, phaseB, PhaseBounds.extent, hb]
    rcases b.aEnd with _ | s <;> rcases b.cStart with _ | e <;> try rfl
    exact extent_ite (p := fun r => r.startBar < r.endBar) (mkSpan toF64 bars tapeEndBar direction .b (s + 1) (e - 1) _)
  | c =>
    simp only [phaseSpans, phaseC, PhaseBounds.extent, hb]
    rcases b.cStart with _ | s <;> rcases b.cEnd with _ | e <;> rfl
  | d =>
    simp only [phaseSpans, phaseD, PhaseBounds.extent, hb]
    rcases b.dStart with _ | s <;> rcases b.dEnd with _ | e <;> rfl
  | e =>
    simp only [phaseSpans, phaseE, PhaseBounds.extent, hb]
    rcases b.dEnd with _ | s
    · rfl
    · exact extent_ite (p := fun r => r.startBar < r.endBar)
        (mkSpan toF64 bars tapeEndBar direction .e s (phaseEEnd b tapeEndBar) _)

variable (toF64 bars) in
theorem head?_classifySide : (classifySide toF64 bars tapeEndBar direction group).head?.map (·.extent) =
    (phaseBounds direction group).firstPhase tapeEndBar := by
  rw [classifySide_eq, List.head?_flatMap, List.map_findSome?, PhaseBounds.firstPhase]
  congr 1
  funext p
  rw [Function.comp_apply, ← List.head?_map, extent_phaseSpans, Option.head?_toList]

variable (toF64 bars) in
theorem getLast?_classifySide : (classifySide toF64 bars tapeEndBar direction group).getLast?.map (·.extent) =
    (phaseBounds direction group).lastPhase tapeEndBar := by
  rw [classifySide_eq, List.getLast?_flatMap, List.map_findSome?, PhaseBounds.lastPhase]
  congr 1
  funext p
  rw [Function.comp_apply, ← List.getLast?_map, extent_phaseSpans]
  cases (phaseBounds direction group).extent tapeEndBar p <;> rfl

variable (toF64 bars) in
theorem handsOver_classifySide : HandsOver (classifySide toF64 bars tapeEndBar direction group)
      (classifySide toF64 bars tapeEndBar direction group') ↔
    CyclesApart tapeEndBar (phaseBounds direction group) (phaseBounds direction group') := by
  rw [CyclesApart, ← getLast?_classifySide toF64 bars, ← head?_classifySide toF64 bars]
  simp only [Option.mem_map, forall_exists_index, and_imp, forall_apply_eq_imp_iff₂]
  exact Iff.rfl

/-! ### Spans of two cycles -/

theorem getLast?_or_exists {α : Type*} {R : α → α → Prop} {l : List α} {a : α} (h : l.Pairwise R) (ha : a ∈ l) :
    l.getLast? = some a ∨ ∃ c ∈ l, R a c := by
  obtain ⟨pre, later, rfl⟩ := List.append_of_mem ha
  rcases later with _ | ⟨c, later⟩
  · exact .inl (by simp)
  · refine .inr ⟨c, by simp, ?_⟩
    exact (List.pairwise_cons.1 (List.pairwise_append.1 h).2.1).1 c List.mem_cons_self

theorem eq_or_rel_getLast? {α : Type*} {R : α → α → Prop} {l : List α} {a c : α} (h : l.Pairwise R)
    (ha : l.getLast? = some a) (hc : c ∈ l) : c = a ∨ R c a := by
  obtain ⟨pre, rfl⟩ := List.getLast?_eq_some_iff.1 ha
  rcases List.mem_append.1 hc with hc | hc
  · exact .inr ((List.pairwise_append.1 h).2.2 c hc a (List.mem_singleton_self a))
  · exact .inl (List.mem_singleton.1 hc)

theorem head?_or_exists {α : Type*} {R : α → α → Prop} {l : List α} {a : α} (h : l.Pairwise R) (ha : a ∈ l) :
    l.head? = some a ∨ ∃ c ∈ l.head?, R c a := by
  rcases l with _ | ⟨c, l⟩
  · simp at ha
  · rcases List.mem_cons.1 ha with rfl | ha
    · exact .inl rfl
    · exact .inr ⟨c, rfl, (List.pairwise_cons.1 h).1 a ha⟩

/-- No bar belongs to both. -/
def Apart (s t : WyckoffSchematicSpan) : Prop :=
  ∀ bar, ¬ (s.startBar ≤ bar ∧ bar ≤ s.endBar ∧ t.startBar ≤ bar ∧ bar ≤ t.endBar)

theorem Apart.symm (h : Apart s t) : Apart t s := by
  rintro bar ⟨h₁, h₂, h₃, h₄⟩
  exact h bar ⟨h₃, h₄, h₁, h₂⟩

/-- Of two spans the one that starts first is over when the other starts. -/
theorem apart_iff (ht : t.startBar ≤ t.endBar) (hst : s.startBar ≤ t.startBar) :
    Apart s t ↔ s.endBar < t.startBar := by
  constructor
  · intro h
    by_contra hge
    exact h t.startBar ⟨hst, not_lt.1 hge, le_rfl, ht⟩
  · rintro h bar ⟨-, hbar, hbar', -⟩
    omega

/-- Phase E alone may reach into a later cycle. -/
def Precedes (l l' : List WyckoffSchematicSpan) : Prop :=
  ∀ s ∈ l, ∀ t ∈ l', s.startBar ≤ t.startBar ∧ (s.phase ≠ .e → s.endBar ≤ t.startBar)

/-- The spans of the cycles of one side. -/
structure Cycles (direction : WyckoffSchematicDirection) (cycles : List (List WyckoffSchematicSpan)) : Prop where
  side : ∀ l ∈ cycles, ∀ s ∈ l, OfSide direction s
  ranks : ∀ l ∈ cycles, l.Pairwise fun s t => s.rank < t.rank
  order : cycles.Pairwise Precedes

section cycles
variable {cycles : List (List WyckoffSchematicSpan)} {l l' : List WyckoffSchematicSpan}

/-- Of two cycles one comes first. -/
theorem Cycles.before_or (hc : Cycles direction cycles) (hl : l ∈ cycles) (hl' : l' ∈ cycles) :
    l = l' ∨ Precedes l l' ∨ Precedes l' l := by
  by_cases hll : l = l'
  · exact .inl hll
  · have hor := hc.order.imp fun {l l'} h => Or.inl (b := Precedes l' l) h
    have : Std.Symm fun l l' => Precedes l l' ∨ Precedes l' l := ⟨fun _ _ => Or.symm⟩
    exact .inr (hor.forall hl hl' hll)

theorem settled_apart (h : (settled spans s).endBar < t.startBar) : Apart (settled spans s) (settled spans t) := by
  rintro bar ⟨-, hbar, hbar', -⟩
  rw [(settled_cutOf spans t).startBar] at hbar'
  omega

theorem rank_lt_four (h : s.rank < x.rank) : s.phase ≠ .e := by
  intro he
  rw [WyckoffSchematicSpan.rank, WyckoffSchematicSpan.rank, he] at h
  revert h
  cases x.phase <;> decide

/-- A later phase of the same cycle takes over. -/
theorem Cycles.endBar_lt (hc : Cycles direction cycles) (hl : l ∈ cycles) (hs : s ∈ l) (hx : x ∈ cycles.flatten)
    (hrank : s.rank < x.rank) (hstart : s.startBar < x.startBar) (hm : x.startBar ≤ m) :
    (settled cycles.flatten s).endBar < m := by
  obtain ⟨l', hl', hx'⟩ := List.mem_flatten.1 hx
  refine endBar_settled_lt.2 (.inr ⟨x, hx, ?_, hrank, hstart, hm⟩)
  rw [(hc.side l' hl' x hx').direction, (hc.side l hl s hs).direction]

theorem Cycles.inCycle (hc : Cycles direction cycles) (hl : l ∈ cycles)
    (hstarts : l.Pairwise fun s t => s.startBar < t.startBar) :
    l.Pairwise fun s t => (settled cycles.flatten s).endBar < t.startBar :=
  (hstarts.and (hc.ranks l hl)).imp_of_mem fun hs ht h =>
    hc.endBar_lt hl hs (List.mem_flatten.2 ⟨l, hl, ht⟩) h.2 h.1 le_rfl

/-- Where each cycle hands over to the next, no two spans share a bar. -/
theorem Cycles.apart (hc : Cycles direction cycles)
    (hstarts : ∀ l ∈ cycles, l.Pairwise fun s t => s.startBar < t.startBar) (hhands : cycles.Pairwise HandsOver) :
    cycles.flatten.Pairwise fun s t => Apart (settled cycles.flatten s) (settled cycles.flatten t) := by
  refine List.pairwise_flatten.2 ⟨fun l hl => (hc.inCycle hl (hstarts l hl)).imp settled_apart, ?_⟩
  refine (hhands.and hc.order).imp_of_mem fun {l l'} hl hl' h s hs t ht => settled_apart ?_
  rcases getLast?_or_exists ((hstarts l hl).and (hc.ranks l hl)) hs with hlast | ⟨c, hcl, hstart, hrank⟩
  · rcases head?_or_exists (hstarts l' hl') ht with hhead | ⟨c, hhead, hct⟩
    · rcases h.1 s hlast t hhead with hlt | ⟨heq, hstart, hrank⟩
      · exact endBar_settled_lt.2 (.inl hlt)
      · exact hc.endBar_lt hl hs (List.mem_flatten.2 ⟨l', hl', ht⟩) hrank (by omega) le_rfl
    · refine endBar_settled_lt.2 (.inl ?_)
      rcases h.1 s hlast c hhead with hlt | ⟨heq, -, -⟩
      · exact hlt.trans hct
      · omega
  · exact hc.endBar_lt hl hs (List.mem_flatten.2 ⟨l, hl, hcl⟩) hrank hstart (h.2 c hcl t ht).1

/-- Only then: the last phase of a cycle is outranked by nothing before the next cycle starts. -/
theorem Cycles.handsOver (hc : Cycles direction cycles)
    (h : cycles.flatten.Pairwise fun s t => Apart (settled cycles.flatten s) (settled cycles.flatten t)) :
    cycles.Pairwise HandsOver := by
  have hmem : ∀ {l s}, l ∈ cycles → s ∈ l → s ∈ cycles.flatten := fun hl hs => List.mem_flatten.2 ⟨_, hl, hs⟩
  refine ((List.pairwise_flatten.1 h).2.and hc.order).imp_of_mem fun {l l'} hl hl' hlt s hlast t hhead => ?_
  have hs := List.mem_of_getLast? hlast
  have ht := List.mem_of_mem_head? hhead
  obtain ⟨hstart, hend⟩ := hlt.2 s hs t ht
  have hcutS := settled_cutOf cycles.flatten s
  have hcutT := settled_cutOf cycles.flatten t
  have hover : (settled cycles.flatten s).endBar < t.startBar := by
    have happart := (apart_iff (hcutT.le (hc.side l' hl' t ht).le) (by
      rw [hcutS.startBar, hcutT.startBar]
      exact hstart)).1 (hlt.1 s hs t ht)
    rwa [hcutT.startBar] at happart
  rcases endBar_settled_lt.1 hover with hlt' | ⟨x, hx, -, hrank, hxs, hxt⟩
  · exact .inl hlt'
  · rcases (hend (rank_lt_four hrank)).lt_or_eq with hlt' | heq
    · exact .inl hlt'
    · refine .inr ⟨heq, by omega, ?_⟩
      by_cases hxe : x = t
      · exact hxe ▸ hrank
      · -- another span that takes over before `t` starts: there is no cycle it can be of
        have : Std.Symm fun s t => Apart (settled cycles.flatten s) (settled cycles.flatten t) := ⟨fun _ _ => Apart.symm⟩
        have happart := h.forall hx (hmem hl' ht) hxe
        obtain ⟨l'', hl'', hxl⟩ := List.mem_flatten.1 hx
        have hne : x.startBar ≠ t.startBar := by
          intro hxt'
          have hcutX := settled_cutOf cycles.flatten x
          have hleX := hcutX.le (hc.side l'' hl'' x hxl).le
          have hleT := hcutT.le (hc.side l' hl' t ht).le
          have hboth := happart t.startBar
          rw [hcutX.startBar] at hleX hboth
          rw [hcutT.startBar] at hleT hboth
          exact hboth ⟨hxt'.le, by omega, le_rfl, hleT⟩
        rcases hc.before_or hl hl'' with rfl | hbefore | hbefore
        · rcases eq_or_rel_getLast? (hc.ranks l hl) hlast hxl with rfl | hlow
          · omega
          · omega
        · have hafter := (hbefore s hs x hxl).2 (rank_lt_four hrank)
          omega
        · have hafter := (hbefore x hxl s hs).1
          omega

end cycles

/-! ## The output -/

section output
variable {variant : String} (h : ∀ e ∈ events, e.variant = variant)

theorem cycles_sideSpans (toF64 : ℚ → Option F64) (events : List WyckoffEvent) (bars : List Bar) (tapeEndBar : ℕ)
    (direction : WyckoffSchematicDirection) :
    Cycles direction ((cyclesOf events direction).map (classifySide toF64 bars tapeEndBar direction)) := by
  refine ⟨?_, ?_, ?_⟩
  · intro l hl s hs
    obtain ⟨group, -, rfl⟩ := List.mem_map.1 hl
    exact ofSide_classifySide hs
  · intro l hl
    obtain ⟨group, -, rfl⟩ := List.mem_map.1 hl
    exact ranks_classifySide
  · refine List.pairwise_map.2 ((sorted_splitIntoCycles events _).imp ?_)
    intro group group' hbefore s hs t ht
    obtain ⟨⟨e, he, hse⟩, hends⟩ : (∃ e ∈ group, s.startBar ≤ e.barIndex) ∧ _ :=
      ⟨(among_classifySide hs).before, (among_classifySide hs).ends⟩
    obtain ⟨e', he', het⟩ := (among_classifySide ht).after
    refine ⟨hse.trans ((hbefore e he e' he').trans het), fun hphase => ?_⟩
    obtain ⟨e'', he'', hend⟩ := hends hphase
    exact hend.trans ((hbefore e'' he'' e' he').trans het)

include h in
/-- The spans of a side share no bar in the output exactly when they share none after settling among themselves. -/
theorem apart_output_iff :
    ((classifySchematicPhases toF64 events bars tapeEndBar).Pairwise fun s t => s.direction = t.direction → Apart s t) ↔
      ∀ direction, (sideSpans toF64 events bars tapeEndBar direction).Pairwise fun s t =>
        Apart (settled (sideSpans toF64 events bars tapeEndBar direction) s)
          (settled (sideSpans toF64 events bars tapeEndBar direction) t) := by
  have hside : ∀ direction, (sideSpans toF64 events bars tapeEndBar direction).Pairwise (fun s t =>
      (settled (sideSpans toF64 events bars tapeEndBar s.direction) s).direction =
        (settled (sideSpans toF64 events bars tapeEndBar t.direction) t).direction →
      Apart (settled (sideSpans toF64 events bars tapeEndBar s.direction) s)
        (settled (sideSpans toF64 events bars tapeEndBar t.direction) t)) ↔
      (sideSpans toF64 events bars tapeEndBar direction).Pairwise fun s t =>
        Apart (settled (sideSpans toF64 events bars tapeEndBar direction) s)
          (settled (sideSpans toF64 events bars tapeEndBar direction) t) := by
    intro direction
    refine List.Pairwise.iff_of_mem fun {s t} hs ht => ?_
    simp only [(settled_cutOf _ s).direction, (settled_cutOf _ t).direction, (ofSide_sideSpans hs).direction,
      (ofSide_sideSpans ht).direction, true_imp_iff]
  rw [classifySchematicPhases_map h, List.pairwise_map, (laidOut_perm h).pairwise_iff, List.pairwise_append, hside, hside]
  · constructor
    · rintro ⟨hacc, hdist, -⟩ direction
      cases direction with
      | accumulation => exact hacc
      | distribution => exact hdist
    · intro hall
      refine ⟨hall .accumulation, hall .distribution, fun s hs t ht hdir => ?_⟩
      rw [(settled_cutOf _ s).direction, (settled_cutOf _ t).direction, (ofSide_sideSpans hs).direction,
        (ofSide_sideSpans ht).direction] at hdir
      exact absurd hdir (by decide)
  · intro s t hst hdir
    exact (hst hdir.symm).symm

include h in
/-- The spans of a cycle whose phases start one after the other stand in the output in this order. -/
theorem sublist_output (hg : group ∈ cyclesOf events direction)
    (hstarts : (classifySide toF64 bars tapeEndBar direction group).Pairwise fun s t => s.startBar < t.startBar) :
    ((classifySide toF64 bars tapeEndBar direction group).map
      (settled (sideSpans toF64 events bars tapeEndBar direction))).Sublist
        (classifySchematicPhases toF64 events bars tapeEndBar) := by
  have hin : (classifySide toF64 bars tapeEndBar direction group).Sublist
      (clipped toF64 events bars tapeEndBar .accumulation ++ clipped toF64 events bars tapeEndBar .distribution) := by
    have hside : (classifySide toF64 bars tapeEndBar direction group).Sublist
        (sideSpans toF64 events bars tapeEndBar direction) :=
      List.sublist_flatten_of_mem (List.mem_map_of_mem hg)
    rw [clipped_eq h, clipped_eq h]
    cases direction with
    | accumulation => exact hside.trans (List.sublist_append_left _ _)
    | distribution => exact hside.trans (List.sublist_append_right _ _)
  have hbyStart : (classifySide toF64 bars tapeEndBar direction group).Pairwise byStart :=
    hstarts.imp fun hlt => .inl hlt
  have hbySide : (classifySide toF64 bars tapeEndBar direction group).Pairwise bySideAndStart := by
    refine hstarts.imp_of_mem fun {s t} hs ht hlt => .inr ⟨?_, .inl hlt⟩
    rw [(ofSide_classifySide hs).direction, (ofSide_classifySide ht).direction]
  have hlaid : (classifySide toF64 bars tapeEndBar direction group).Sublist (laidOut toF64 events bars tapeEndBar) :=
    List.sublist_insertionSort hbySide (List.sublist_insertionSort hbyStart hin)
  have hmap : (classifySide toF64 bars tapeEndBar direction group).map
      (settled (sideSpans toF64 events bars tapeEndBar direction)) =
      (classifySide toF64 bars tapeEndBar direction group).map
        fun s => settled (sideSpans toF64 events bars tapeEndBar s.direction) s :=
    List.map_congr_left fun s hs => by rw [(ofSide_classifySide hs).direction]
  rw [classifySchematicPhases_map h, hmap]
  exact hlaid.map _

end output

/-- No span is empty, no two of a direction share a bar, and the spans of a cycle stand one after the other in the order
of the phases. -/
structure PhaseOrder (toF64 : ℚ → Option F64) (events : List WyckoffEvent) (bars : List Bar) (tapeEndBar : ℕ)
    (out : List WyckoffSchematicSpan) : Prop where
  nonempty : ∀ s ∈ out, s.startBar ≤ s.endBar
  apart : out.Pairwise fun s t => s.direction = t.direction → Apart s t
  inCycle : ∀ direction, ∀ group ∈ cyclesOf events direction, ∃ l, l.Sublist out ∧
    List.Forall₂ CutOf (classifySide toF64 bars tapeEndBar direction group) l ∧
    l.Pairwise fun s t => s.rank < t.rank ∧ s.endBar < t.startBar

theorem startBar_eq_of_forall₂ {l l' : List WyckoffSchematicSpan} (h : List.Forall₂ CutOf l l') :
    l.map (·.startBar) = l'.map (·.startBar) := by
  induction h with
  | nil => rfl
  | cons hcut _ ih => rw [List.map_cons, List.map_cons, ih, hcut.startBar]

/-- **The phases never overlap** exactly when every cycle has its anchors in order and hands over to the next. -/
theorem phase_order_iff (toF64 : ℚ → Option F64) (events : List WyckoffEvent) (bars : List Bar) (tapeEndBar : ℕ)
    (variant : String) (h : ∀ e ∈ events, e.variant = variant) :
    PhaseOrder toF64 events bars tapeEndBar (classifySchematicPhases toF64 events bars tapeEndBar) ↔
      ∀ direction,
        (∀ group ∈ cyclesOf events direction, InOrder tapeEndBar (phaseBounds direction group)) ∧
        (cyclesOf events direction).Pairwise fun group group' =>
          CyclesApart tapeEndBar (phaseBounds direction group) (phaseBounds direction group') := by
  have hcycles := cycles_sideSpans toF64 events bars tapeEndBar
  simp only [← handsOver_classifySide toF64 bars]
  constructor
  · intro horder direction
    constructor
    · intro group hg
      obtain ⟨l, hsub, hcut, hl⟩ := horder.inCycle direction group hg
      have hstarts : (l.map (·.startBar)).Pairwise (· < ·) :=
        List.pairwise_map.2 (hl.imp_of_mem fun hs _ hst => (horder.nonempty _ (hsub.subset hs)).trans_lt hst.2)
      rw [← startBar_eq_of_forall₂ hcut] at hstarts
      exact starts_classifySide_iff.1 (List.pairwise_map.1 hstarts)
    · exact List.pairwise_map.1 ((hcycles direction).handsOver ((apart_output_iff h).1 horder.apart direction))
  · intro hall
    have hstarts : ∀ direction, ∀ group ∈ cyclesOf events direction,
        (classifySide toF64 bars tapeEndBar direction group).Pairwise fun s t => s.startBar < t.startBar :=
      fun direction group hg => starts_classifySide_iff.2 ((hall direction).1 group hg)
    refine ⟨?_, (apart_output_iff h).2 fun direction => ?_, fun direction group hg => ?_⟩
    · intro t ht
      rw [classifySchematicPhases_map h] at ht
      obtain ⟨s, hs, rfl⟩ := List.mem_map.1 ht
      exact (settled_cutOf _ s).le (ofSide_sideSpans ((mem_laidOut_iff h).1 hs)).le
    · refine (hcycles direction).apart ?_ (List.pairwise_map.2 (hall direction).2)
      intro l hl
      obtain ⟨group, hg, rfl⟩ := List.mem_map.1 hl
      exact hstarts direction group hg
    · refine ⟨_, sublist_output h hg (hstarts direction group hg), ?_, ?_⟩
      · exact List.forall₂_map_right_iff.2 (List.forall₂_same.2 fun s _ => settled_cutOf _ s)
      · have hin := (hcycles direction).inCycle (List.mem_map_of_mem hg) (hstarts direction group hg)
        refine List.pairwise_map.2 ((hin.and ranks_classifySide).imp fun {s t} hst => ?_)
        have hs := settled_cutOf (sideSpans toF64 events bars tapeEndBar direction) s
        have ht := settled_cutOf (sideSpans toF64 events bars tapeEndBar direction) t
        simp only [WyckoffSchematicSpan.rank, hs.phase, ht.phase, ht.startBar]
        exact ⟨hst.2, hst.1⟩

/-! ## A clean schematic, and three that overlap -/

def cleanEvents : List WyckoffEvent :=
  [eventAt .ps "bull" 10, eventAt .ar "bull" 20, eventAt .spring "bull" 50, eventAt .sos "bull" 70,
    eventAt .bu "bull" 90]

theorem phaseOrder_clean : PhaseOrder (some ∘ F64.round) cleanEvents [] 199 (phasesOf cleanEvents) := by
  refine (phase_order_iff _ cleanEvents [] 199 "bull" (by decide)).2 fun direction => ?_
  cases direction with
  | accumulation =>
    have hcycles : cyclesOf cleanEvents .accumulation = [cleanEvents] := by decide
    have hbounds : phaseBounds .accumulation cleanEvents = ⟨some 10, some 20, some 50, some 50, some 70, some 90⟩ := rfl
    rw [hcycles]
    refine ⟨fun group hg => ?_, List.pairwise_singleton _ _⟩
    rw [List.mem_singleton.1 hg, hbounds]
    constructor <;> simp only [Option.some.injEq] <;> omega
  | distribution =>
    have hcycles : cyclesOf cleanEvents .distribution = [] := by decide
    simp [hcycles]

theorem PhaseOrder.at_bar {out : List WyckoffSchematicSpan} (h : PhaseOrder toF64 events bars tapeEndBar out)
    (bar : ℕ) : out.Pairwise fun s t => s.direction = t.direction →
      ¬ (s.startBar ≤ bar ∧ bar ≤ s.endBar ∧ t.startBar ≤ bar ∧ bar ≤ t.endBar) :=
  h.apart.imp fun hapart hdir => hapart hdir bar

/-- No BU or LPS after the SOS: Phase E starts on the bar of Phase D. A PS and an AR between a Spring and its Test:
Phase A lies inside Phase C. A Spring 20 bars after the BU: Phase E runs on through the next Phase C. -/
theorem phases_overlap :
    ¬ PhaseOrder (some ∘ F64.round) [eventAt .spring "bull" 30, eventAt .sos "bull" 40] [] 199
        (phasesOf [eventAt .spring "bull" 30, eventAt .sos "bull" 40]) ∧
      ¬ PhaseOrder (some ∘ F64.round)
        [eventAt .spring "bull" 30, eventAt .ps "bull" 50, eventAt .ar "bull" 60, eventAt .test "bull" 70] [] 199
        (phasesOf [eventAt .spring "bull" 30, eventAt .ps "bull" 50, eventAt .ar "bull" 60, eventAt .test "bull" 70]) ∧
      ¬ PhaseOrder (some ∘ F64.round)
        [eventAt .sos "bull" 70, eventAt .bu "bull" 90, eventAt .spring "bull" 110] [] 199
        (phasesOf [eventAt .sos "bull" 70, eventAt .bu "bull" 90, eventAt .spring "bull" 110]) := by
  refine ⟨?_, ?_, ?_⟩
  · intro h
    exact absurd (h.at_bar 40) (by decide +kernel)
  · intro h
    exact absurd (h.at_bar 55) (by decide +kernel)
  · intro h
    exact absurd (h.at_bar 110) (by decide +kernel)

end Qtss.Wyckoff
