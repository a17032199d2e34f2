import Qtss.Wyckoff.Phases
/-
# Accumulation against distribution

"at any bar the market is in EITHER an accumulation OR a distribution schematic, never both". The sides are classified
on their own; then a span is cut before the first opposite Phase A that starts strictly inside it, and before the next
phase of its own side. Nothing else keeps the sides apart: a span that starts with an opposite one, or inside it with no
Phase A of its side in between, shares bars with it (`side_mutex_iff`).
-/

namespace Qtss.Wyckoff

variable {s t x y : WyckoffSchematicSpan} {spans : List WyckoffSchematicSpan} {anchors : List ℕ} {m : ℕ}
  {direction : WyckoffSchematicDirection}

/-! ## Cutting a span -/

/-- The span with another end. -/
structure CutOf (s t : WyckoffSchematicSpan) : Prop where
  phase : t.phase = s.phase
  direction : t.direction = s.direction
  startBar : t.startBar = s.startBar
  le : s.startBar ≤ s.endBar → t.startBar ≤ t.endBar

theorem CutOf.refl (s : WyckoffSchematicSpan) : CutOf s s := ⟨rfl, rfl, rfl, fun h => h⟩

theorem CutOf.trans (h : CutOf s t) (h' : CutOf t x) : CutOf s x where
  phase := h'.phase.trans h.phase
  direction := h'.direction.trans h.direction
  startBar := h'.startBar.trans h.startBar
  le hs := h'.le (h.le hs)

theorem clipSpan_cutOf (s : WyckoffSchematicSpan) (a : ℕ) : CutOf s (clipSpan s a) := by
  unfold clipSpan
  split
  · exact ⟨rfl, rfl, rfl, fun _ => le_max_right _ _⟩
  · exact .refl s

theorem yieldTo_cutOf (x y : WyckoffSchematicSpan) : CutOf y (yieldTo x y) := by
  unfold yieldTo
  split
  next h => exact ⟨rfl, rfl, rfl, fun _ => Nat.le_sub_one_of_lt h.2.2.2⟩
  next => exact .refl y

theorem foldl_clipSpan_cutOf (anchors : List ℕ) (s : WyckoffSchematicSpan) : CutOf s (anchors.foldl clipSpan s) := by
  induction anchors generalizing s with
  | nil => exact .refl s
  | cons a anchors ih => exact (clipSpan_cutOf s a).trans (ih _)

theorem foldl_yieldTo_cutOf (later : List WyckoffSchematicSpan) (s : WyckoffSchematicSpan) :
    CutOf s (later.foldl (fun y x => yieldTo x y) s) := by
  induction later generalizing s with
  | nil => exact .refl s
  | cons x later ih => exact (yieldTo_cutOf x s).trans (ih _)

/-- Anchors in ascending order: the first one strictly inside cuts, and it is the last to do so. -/
theorem endBar_foldl_clipSpan_lt (h : anchors.Pairwise (· ≤ ·)) (hm : s.startBar < m) :
    (anchors.foldl clipSpan s).endBar < m ↔
      s.endBar < m ∨ ∃ a ∈ anchors, s.startBar < a ∧ a ≤ m ∧ a < s.endBar := by
  induction anchors generalizing s with
  | nil => simp
  | cons a anchors ih =>
    obtain ⟨hle, h⟩ := List.pairwise_cons.1 h
    rw [List.foldl_cons, ih h ((clipSpan_cutOf s a).startBar ▸ hm), (clipSpan_cutOf s a).startBar]
    by_cases hin : a > s.startBar ∧ a < s.endBar
    · have hend : (clipSpan s a).endBar = a - 1 := by
        rw [clipSpan, if_pos hin]
        exact max_eq_left (Nat.le_sub_one_of_lt hin.1)
      rw [hend]
      constructor
      · rintro (hlt | ⟨b, hb, -, -, hba⟩)
        · exact .inr ⟨a, List.mem_cons_self, hin.1, by omega, hin.2⟩
        · exact absurd (hle b hb) (by omega)
      · rintro (hlt | ⟨b, hb, -, hbm, -⟩)
        · exact .inl (by omega)
        · rcases List.mem_cons.1 hb with rfl | hb
          · exact .inl (by omega)
          · exact .inl (by have := hle b hb; omega)
    · have hsame : clipSpan s a = s := if_neg hin
      rw [hsame]
      simp only [List.mem_cons, exists_eq_or_imp]
      have hnot : ¬ (s.startBar < a ∧ a ≤ m ∧ a < s.endBar) := fun h => hin ⟨h.1, h.2.2⟩
      rw [or_iff_right hnot]

/-- `x` takes over from `s` by the bar `m`. -/
def TakesOver (s : WyckoffSchematicSpan) (m : ℕ) (x : WyckoffSchematicSpan) : Prop :=
  x.direction = s.direction ∧ s.rank < x.rank ∧ s.startBar < x.startBar ∧ x.startBar ≤ m

theorem endBar_yieldTo_lt : (yieldTo x s).endBar < m ↔ s.endBar < m ∨ TakesOver s m x := by
  unfold yieldTo TakesOver
  split
  next h =>
    obtain ⟨hdir, hrank, hend, hstart⟩ := h
    simp only [hdir, hrank, hstart, true_and]
    omega
  next h =>
    constructor
    · exact .inl
    · rintro (hlt | ⟨hdir, hrank, hstart, hxm⟩)
      · exact hlt
      · by_contra hge
        exact h ⟨hdir.symm, hrank, by omega, hstart⟩

theorem CutOf.takesOver_iff (h : CutOf s t) : TakesOver t m x ↔ TakesOver s m x := by
  simp only [TakesOver, WyckoffSchematicSpan.rank, h.phase, h.direction, h.startBar]

theorem CutOf.takesOver_iff' (h : CutOf x y) : TakesOver s m y ↔ TakesOver s m x := by
  simp only [TakesOver, WyckoffSchematicSpan.rank, h.phase, h.direction, h.startBar]

theorem endBar_foldl_yieldTo_lt (later : List WyckoffSchematicSpan) :
    (later.foldl (fun y x => yieldTo x y) s).endBar < m ↔ s.endBar < m ∨ ∃ x ∈ later, TakesOver s m x := by
  induction later generalizing s with
  | nil => simp
  | cons x later ih =>
    simp only [List.foldl_cons, ih, endBar_yieldTo_lt, (yieldTo_cutOf x s).takesOver_iff, List.mem_cons,
      exists_eq_or_imp, or_assoc]

/-! ## The sequencing pass -/

/-- Every span yields to those after it. -/
def sequenced : List WyckoffSchematicSpan → List WyckoffSchematicSpan
  | [] => []
  | s :: later => later.foldl (fun y x => yieldTo x y) s :: sequenced later

theorem foldl_yieldTo_eq (spans before : List WyckoffSchematicSpan) :
    spans.foldl (fun before x => before.map (yieldTo x) ++ [x]) before =
      before.map (fun y => spans.foldl (fun y x => yieldTo x y) y) ++ sequenced spans := by
  induction spans generalizing before with
  | nil => simp [sequenced]
  | cons x spans ih =>
    rw [List.foldl_cons, ih, List.map_append, List.map_map, List.map_singleton, List.append_assoc,
      List.singleton_append]
    rfl

theorem mem_sequenced : t ∈ sequenced spans ↔
    ∃ pre s later, spans = pre ++ s :: later ∧ t = later.foldl (fun y x => yieldTo x y) s := by
  induction spans with
  | nil => simp [sequenced]
  | cons x spans ih =>
    rw [sequenced, List.mem_cons, ih]
    constructor
    · rintro (rfl | ⟨pre, s, later, rfl, rfl⟩)
      · exact ⟨[], x, spans, rfl, rfl⟩
      · exact ⟨x :: pre, s, later, rfl, rfl⟩
    · rintro ⟨pre, s, later, hsplit, rfl⟩
      cases pre with
      | nil =>
        obtain ⟨rfl, rfl⟩ := List.cons.inj hsplit
        exact .inl rfl
      | cons p pre =>
        obtain ⟨-, rfl⟩ := List.cons.inj hsplit
        exact .inr ⟨pre, s, later, rfl, rfl⟩

instance : Std.Total byStart := ⟨fun s t => by unfold byStart; omega⟩
instance : IsTrans WyckoffSchematicSpan byStart := ⟨fun s t x => by unfold byStart; omega⟩
instance : Std.Total bySideAndStart := ⟨fun s t => by unfold bySideAndStart byStart; omega⟩
instance : IsTrans WyckoffSchematicSpan bySideAndStart := ⟨fun s t x => by unfold bySideAndStart byStart; omega⟩

/-- In a sorted list, whoever takes over stands behind. -/
theorem takesOver_later_iff {pre later : List WyckoffSchematicSpan}
    (h : (pre ++ s :: later).Pairwise bySideAndStart) :
    (∃ x ∈ later, TakesOver s m x) ↔ ∃ x ∈ pre ++ s :: later, TakesOver s m x := by
  constructor
  · rintro ⟨x, hx, htakes⟩
    exact ⟨x, by simp [hx], htakes⟩
  · rintro ⟨x, hx, htakes⟩
    have ⟨hdir, _, hstart, _⟩ := htakes
    simp only [List.mem_append, List.mem_cons] at hx
    rcases hx with hx | rfl | hx
    · have hbefore := (List.pairwise_append.1 h).2.2 x hx s List.mem_cons_self
      simp only [bySideAndStart, byStart, hdir] at hbefore
      omega
    · omega
    · exact ⟨x, hx, htakes⟩

/-! ## The spans of one side -/

section side
variable {toF64 : ℚ → Option F64} {bars : List Bar} {tapeEndBar : ℕ} {events : List WyckoffEvent} {b : PhaseBounds}

/-- What `classify_side` says of each of its spans. -/
structure OfSide (direction : WyckoffSchematicDirection) (s : WyckoffSchematicSpan) : Prop where
  direction : s.direction = direction
  le : s.startBar ≤ s.endBar

theorem exists_of_firstBar {kind : WyckoffEventKind} {bar : ℕ} (h : firstBar (byKind kind events) = some bar) :
    ∃ e ∈ events, e.barIndex = bar := by
  obtain ⟨e, he, rfl⟩ := Option.map_eq_some_iff.1 h
  exact ⟨e, List.mem_of_mem_filter (List.mem_of_mem_head? he), rfl⟩

theorem le_lastBar_fromBar {bar : Option ℕ} {start last : ℕ} (hbar : bar = some start)
    (h : lastBar (fromBar bar events) = some last) : start ≤ last := by
  obtain ⟨e, he, rfl⟩ := Option.map_eq_some_iff.1 h
  have hmem := (List.mem_filter.1 (List.mem_of_getLast? he)).2
  simpa [hbar] using hmem

theorem cStart_le_cEnd {start last : ℕ} (hs : (phaseBounds direction events).cStart = some start)
    (he : (phaseBounds direction events).cEnd = some last) : start ≤ last := by
  rcases Option.or_eq_some_iff.1 he with he | ⟨-, he⟩
  · exact le_lastBar_fromBar hs he
  · exact (Option.some.inj (hs.symm.trans he)).le

theorem dStart_le_dEnd {start last : ℕ} (hs : (phaseBounds direction events).dStart = some start)
    (he : (phaseBounds direction events).dEnd = some last) : start ≤ last := by
  rcases Option.or_eq_some_iff.1 he with he | ⟨-, he⟩
  · rcases Option.or_eq_some_iff.1 he with he | ⟨-, he⟩
    · exact le_lastBar_fromBar hs he
    · exact le_lastBar_fromBar hs he
  · exact (Option.some.inj (hs.symm.trans he)).le

theorem ofSide_phaseA (h : s ∈ phaseA toF64 bars tapeEndBar direction events b) :
    OfSide direction s ∧ s.phase = .a ∧ b.aStart = some s.startBar := by
  unfold phaseA at h
  split at h
  next hs he =>
    split at h
    next hle =>
      rw [List.mem_singleton.1 h]
      exact ⟨⟨rfl, hle⟩, rfl, hs⟩
    next => simp at h
  next => simp at h

theorem ofSide_phaseB (h : s ∈ phaseB toF64 bars tapeEndBar direction events b) :
    OfSide direction s ∧ s.phase = .b := by
  unfold phaseB at h
  split at h
  · split at h
    next hlt =>
      rw [List.mem_singleton.1 h]
      exact ⟨⟨rfl, hlt.le⟩, rfl⟩
    next => simp at h
  · simp at h

theorem ofSide_phaseC (h : s ∈ phaseC toF64 bars tapeEndBar direction events (phaseBounds direction events)) :
    OfSide direction s ∧ s.phase = .c := by
  unfold phaseC at h
  split at h
  next hs he =>
    rw [List.mem_singleton.1 h]
    exact ⟨⟨rfl, cStart_le_cEnd hs he⟩, rfl⟩
  next => simp at h

theorem ofSide_phaseD (h : s ∈ phaseD toF64 bars tapeEndBar direction events (phaseBounds direction events)) :
    OfSide direction s ∧ s.phase = .d := by
  unfold phaseD at h
  split at h
  next hs he =>
    rw [List.mem_singleton.1 h]
    exact ⟨⟨rfl, dStart_le_dEnd hs he⟩, rfl⟩
  next => simp at h

theorem ofSide_phaseE (h : s ∈ phaseE toF64 bars tapeEndBar direction b) :
    OfSide direction s ∧ s.phase = .e := by
  unfold phaseE at h
  split at h
  · split at h
    next hlt =>
      rw [List.mem_singleton.1 h]
      exact ⟨⟨rfl, hlt.le⟩, rfl⟩
    next => simp at h
  · simp at h

theorem ofSide_classifySide (h : s ∈ classifySide toF64 bars tapeEndBar direction events) : OfSide direction s := by
  unfold classifySide at h
  split at h
  · simp at h
  · simp only [List.mem_append] at h
    rcases h with (((h | h) | h) | h) | h
    · exact (ofSide_phaseA h).1
    · exact (ofSide_phaseB h).1
    · exact (ofSide_phaseC h).1
    · exact (ofSide_phaseD h).1
    · exact (ofSide_phaseE h).1

theorem phaseAStarts_append (l l' : List WyckoffSchematicSpan) :
    phaseAStarts (l ++ l') = phaseAStarts l ++ phaseAStarts l' := by
  rw [phaseAStarts, List.filter_append, List.map_append]
  rfl

/-- At most one Phase A, which starts at the bar of an event. -/
theorem phaseAStarts_classifySide (events : List WyckoffEvent) :
    (phaseAStarts (classifySide toF64 bars tapeEndBar direction events)).Pairwise (· ≤ ·) ∧
      ∀ a ∈ phaseAStarts (classifySide toF64 bars tapeEndBar direction events), ∃ e ∈ events, e.barIndex = a := by
  unfold classifySide
  split
  · simp [phaseAStarts]
  · have honly : ∀ l : List WyckoffSchematicSpan, (∀ s ∈ l, s.phase ≠ .a) → phaseAStarts l = [] := by
      intro l hl
      simpa [phaseAStarts] using hl
    have hB := honly (phaseB toF64 bars tapeEndBar direction events (phaseBounds direction events))
      fun s hs => by simp [(ofSide_phaseB hs).2]
    have hC := honly (phaseC toF64 bars tapeEndBar direction events (phaseBounds direction events))
      fun s hs => by simp [(ofSide_phaseC hs).2]
    have hD := honly (phaseD toF64 bars tapeEndBar direction events (phaseBounds direction events))
      fun s hs => by simp [(ofSide_phaseD hs).2]
    have hE := honly (phaseE toF64 bars tapeEndBar direction (phaseBounds direction events))
      fun s hs => by simp [(ofSide_phaseE hs).2]
    simp only [phaseAStarts_append, hB, hC, hD, hE]
    simp only [List.append_nil]
    constructor
    · unfold phaseA
      split
      · split <;> simp [phaseAStarts, mkSpan]
      · simp [phaseAStarts]
    · intro a ha
      obtain ⟨s, hs, rfl⟩ := List.mem_map.1 ha
      have hstart := (ofSide_phaseA (List.mem_of_mem_filter hs)).2.2
      rcases Option.or_eq_some_iff.1 hstart with hps | ⟨-, hclimax⟩
      · exact exists_of_firstBar hps
      · exact exists_of_firstBar hclimax

/-! ## The cycles -/

theorem flatten_foldl_next (events : List WyckoffEvent) (sp : Splitting) :
    (events.foldl Splitting.next sp).groups.flatten ++ (events.foldl Splitting.next sp).current =
      sp.groups.flatten ++ sp.current ++ events := by
  induction events generalizing sp with
  | nil => simp
  | cons ev events ih =>
    rw [List.foldl_cons, ih]
    simp only [Splitting.next]
    split <;> simp

theorem flatten_splitIntoCycles (events : List WyckoffEvent) : (splitIntoCycles events).flatten = events := by
  have hall := flatten_foldl_next events ⟨[], [], false⟩
  simp only [List.flatten_nil, List.nil_append] at hall
  rw [splitIntoCycles]
  split
  next hnil =>
    rw [List.isEmpty_iff.1 hnil, List.append_nil] at hall
    exact hall
  next =>
    rw [List.flatten_append, List.flatten_singleton]
    exact hall

/-- No event of a cycle comes after one of a later cycle. -/
theorem sorted_splitIntoCycles (events : List WyckoffEvent) (keep : WyckoffEvent → Bool) :
    (splitIntoCycles ((events.insertionSort fun e e' => e.barIndex ≤ e'.barIndex).filter keep)).Pairwise
      fun group group' => ∀ e ∈ group, ∀ e' ∈ group', e.barIndex ≤ e'.barIndex := by
  have : Std.Total fun e e' : WyckoffEvent => e.barIndex ≤ e'.barIndex := ⟨fun e e' => le_total _ _⟩
  have : IsTrans WyckoffEvent fun e e' => e.barIndex ≤ e'.barIndex := ⟨fun _ _ _ => le_trans⟩
  have hsorted := (List.pairwise_insertionSort (fun e e' : WyckoffEvent => e.barIndex ≤ e'.barIndex) events).filter keep
  rw [← flatten_splitIntoCycles (List.filter _ _), List.pairwise_flatten] at hsorted
  exact hsorted.2

/-- The Phase A starts of a side ascend. -/
theorem phaseAStarts_sideSpans (toF64 : ℚ → Option F64) (events : List WyckoffEvent) (bars : List Bar)
    (tapeEndBar : ℕ) (direction : WyckoffSchematicDirection) :
    (phaseAStarts (sideSpans toF64 events bars tapeEndBar direction)).Pairwise (· ≤ ·) := by
  have hsorted := sorted_splitIntoCycles events fun e => e.variant = variantOf direction
  rw [sideSpans, phaseAStarts, List.filter_flatMap, List.map_flatMap, List.pairwise_flatMap]
  refine ⟨fun group _ => ?_, hsorted.imp ?_⟩
  · exact (phaseAStarts_classifySide group).1
  · intro group group' hbefore a ha a' ha'
    obtain ⟨e, he, rfl⟩ := (phaseAStarts_classifySide group).2 a ha
    obtain ⟨e', he', rfl⟩ := (phaseAStarts_classifySide group').2 a' ha'
    exact hbefore e he e' he'

theorem ofSide_sideSpans (h : s ∈ sideSpans toF64 events bars tapeEndBar direction) : OfSide direction s := by
  obtain ⟨group, -, hs⟩ := List.mem_flatMap.1 h
  exact ofSide_classifySide hs

end side

/-! ## The output -/

def WyckoffSchematicDirection.opposite : WyckoffSchematicDirection → WyckoffSchematicDirection
  | .accumulation => .distribution
  | .distribution => .accumulation

/-- Something ends the span before the bar `m` that lies inside it: a Phase A of the other side that starts strictly
inside the span, or a later phase of its own side. -/
def GivesWay (own other : List WyckoffSchematicSpan) (s : WyckoffSchematicSpan) (m : ℕ) : Prop :=
  (∃ a ∈ phaseAStarts other, s.startBar < a ∧ a ≤ m ∧ a < s.endBar) ∨ ∃ x ∈ own, TakesOver s m x

/-- `t` is what becomes of the span `s` of one side. -/
structure Final (own other : List WyckoffSchematicSpan) (s t : WyckoffSchematicSpan) : Prop where
  direction : t.direction = s.direction
  startBar : t.startBar = s.startBar
  le : t.startBar ≤ t.endBar
  ends : ∀ m, s.startBar < m → (t.endBar < m ↔ s.endBar < m ∨ GivesWay own other s m)

section output
variable (toF64 : ℚ → Option F64) (events : List WyckoffEvent) (bars : List Bar) (tapeEndBar : ℕ)

/-- A side's spans after the mutex. -/
def clipped (direction : WyckoffSchematicDirection) : List WyckoffSchematicSpan :=
  clipSpansByOppositeAnchors (sideSpans toF64 events bars tapeEndBar direction)
    (phaseAStarts (sideSpans toF64 events bars tapeEndBar direction.opposite))

variable {toF64 events bars tapeEndBar}

theorem ofSide_clipped (h : s ∈ clipped toF64 events bars tapeEndBar direction) : OfSide direction s := by
  obtain ⟨r, hr, rfl⟩ := List.mem_map.1 h
  have hside := ofSide_sideSpans hr
  have hcut := foldl_clipSpan_cutOf
    (phaseAStarts (sideSpans toF64 events bars tapeEndBar direction.opposite)) r
  exact ⟨hcut.direction.trans hside.direction, hcut.le hside.le⟩

/-- The list the sequencing pass starts from: no span has been dropped. -/
def laidOut (toF64 : ℚ → Option F64) (events : List WyckoffEvent) (bars : List Bar) (tapeEndBar : ℕ) :
    List WyckoffSchematicSpan :=
  ((clipped toF64 events bars tapeEndBar .accumulation ++ clipped toF64 events bars tapeEndBar .distribution
    ).insertionSort byStart).insertionSort bySideAndStart

theorem mem_laidOut : s ∈ laidOut toF64 events bars tapeEndBar ↔
    s ∈ clipped toF64 events bars tapeEndBar s.direction := by
  rw [laidOut, List.mem_insertionSort, List.mem_insertionSort, List.mem_append]
  constructor
  · rintro (h | h)
    · rwa [(ofSide_clipped h).direction]
    · rwa [(ofSide_clipped h).direction]
  · cases s.direction with
    | accumulation => exact .inl
    | distribution => exact .inr

theorem classifySchematicPhases_eq : classifySchematicPhases toF64 events bars tapeEndBar =
    sequenced (laidOut toF64 events bars tapeEndBar) := by
  have hkeep : ∀ direction, (clipped toF64 events bars tapeEndBar direction).filter (fun s => s.endBar ≥ s.startBar) =
      clipped toF64 events bars tapeEndBar direction :=
    fun direction => List.filter_eq_self.2 fun s hs => by simpa using (ofSide_clipped hs).le
  have hkeep' : (sequenced (laidOut toF64 events bars tapeEndBar)).filter (fun s => s.endBar ≥ s.startBar) =
      sequenced (laidOut toF64 events bars tapeEndBar) := by
    refine List.filter_eq_self.2 fun t ht => ?_
    obtain ⟨pre, s, later, hsplit, rfl⟩ := mem_sequenced.1 ht
    have hs : s ∈ laidOut toF64 events bars tapeEndBar := by simp [hsplit]
    simpa using (foldl_yieldTo_cutOf later s).le (ofSide_clipped (mem_laidOut.1 hs)).le
  rw [classifySchematicPhases]
  split
  next hnil =>
    rw [List.isEmpty_iff.1 hnil]
    rfl
  next =>
    have hacc := hkeep .accumulation
    have hdist := hkeep .distribution
    unfold clipped at hacc hdist
    simp only [WyckoffSchematicDirection.opposite] at hacc hdist
    simp only [hacc, hdist, enforceIntraSideSequencing, foldl_yieldTo_eq, List.map_nil, List.nil_append]
    exact hkeep'

/-- Cut by the mutex and then by the sequencing pass. -/
theorem final_of_split {r : WyckoffSchematicSpan} {pre later : List WyckoffSchematicSpan}
    (hr : r ∈ sideSpans toF64 events bars tapeEndBar direction)
    (hs : s = (phaseAStarts (sideSpans toF64 events bars tapeEndBar direction.opposite)).foldl clipSpan r)
    (hsplit : laidOut toF64 events bars tapeEndBar = pre ++ s :: later) :
    Final (sideSpans toF64 events bars tapeEndBar direction) (sideSpans toF64 events bars tapeEndBar direction.opposite)
      r (later.foldl (fun y x => yieldTo x y) s) := by
  have hclip : CutOf r s := hs ▸ foldl_clipSpan_cutOf _ r
  have hseq := foldl_yieldTo_cutOf later s
  have hside := ofSide_sideSpans hr
  refine ⟨hseq.direction.trans hclip.direction, hseq.startBar.trans hclip.startBar, hseq.le (hclip.le hside.le),
    fun m hm => ?_⟩
  have hsorted : (pre ++ s :: later).Pairwise bySideAndStart := hsplit ▸ List.pairwise_insertionSort _ _
  have hclipped := endBar_foldl_clipSpan_lt (s := r)
    (phaseAStarts_sideSpans toF64 events bars tapeEndBar direction.opposite) hm
  rw [← hs] at hclipped
  -- the spans of the side, before and after the mutex, take over alike
  have htakes : (∃ x ∈ laidOut toF64 events bars tapeEndBar, TakesOver s m x) ↔
      ∃ x ∈ sideSpans toF64 events bars tapeEndBar direction, TakesOver r m x := by
    simp only [hclip.takesOver_iff]
    constructor
    · rintro ⟨x, hx, htake⟩
      have hx' := mem_laidOut.1 hx
      rw [htake.1, hside.direction] at hx'
      obtain ⟨q, hq, rfl⟩ := List.mem_map.1 hx'
      exact ⟨q, hq, (foldl_clipSpan_cutOf _ q).takesOver_iff'.1 htake⟩
    · rintro ⟨q, hq, htake⟩
      have hcut := foldl_clipSpan_cutOf (phaseAStarts (sideSpans toF64 events bars tapeEndBar direction.opposite)) q
      refine ⟨_, mem_laidOut.2 ?_, hcut.takesOver_iff'.2 htake⟩
      rw [hcut.direction, (ofSide_sideSpans hq).direction]
      exact List.mem_map_of_mem hq
  rw [endBar_foldl_yieldTo_lt, takesOver_later_iff hsorted, ← hsplit, htakes, hclipped, or_assoc]
  rfl

theorem exists_final_of_mem (ht : t ∈ classifySchematicPhases toF64 events bars tapeEndBar) :
    ∃ r ∈ sideSpans toF64 events bars tapeEndBar t.direction, Final (sideSpans toF64 events bars tapeEndBar t.direction)
      (sideSpans toF64 events bars tapeEndBar t.direction.opposite) r t := by
  rw [classifySchematicPhases_eq] at ht
  obtain ⟨pre, s, later, hsplit, rfl⟩ := mem_sequenced.1 ht
  have hs : s ∈ laidOut toF64 events bars tapeEndBar := by simp [hsplit]
  obtain ⟨r, hr, hrs⟩ := List.mem_map.1 (mem_laidOut.1 hs)
  rw [(foldl_yieldTo_cutOf later s).direction]
  exact ⟨r, hr, final_of_split hr hrs.symm hsplit⟩

theorem exists_mem_final {r : WyckoffSchematicSpan} (hr : r ∈ sideSpans toF64 events bars tapeEndBar direction) :
    ∃ t ∈ classifySchematicPhases toF64 events bars tapeEndBar, Final (sideSpans toF64 events bars tapeEndBar direction)
      (sideSpans toF64 events bars tapeEndBar direction.opposite) r t := by
  have hcut := foldl_clipSpan_cutOf (phaseAStarts (sideSpans toF64 events bars tapeEndBar direction.opposite)) r
  have hmem : (phaseAStarts (sideSpans toF64 events bars tapeEndBar direction.opposite)).foldl clipSpan r
      ∈ laidOut toF64 events bars tapeEndBar := by
    rw [mem_laidOut, hcut.direction, (ofSide_sideSpans hr).direction]
    exact List.mem_map_of_mem hr
  obtain ⟨pre, later, hsplit⟩ := List.append_of_mem hmem
  refine ⟨_, ?_, final_of_split hr rfl hsplit⟩
  rw [classifySchematicPhases_eq]
  exact mem_sequenced.2 ⟨pre, _, later, hsplit, rfl⟩

/-! ## The mutex -/

/-- No bar belongs both to an Accumulation span and to a Distribution span. -/
def SideMutex (out : List WyckoffSchematicSpan) : Prop :=
  ∀ s ∈ out, ∀ t ∈ out, s.direction = .accumulation → t.direction = .distribution →
    ∀ bar, ¬ (s.startBar ≤ bar ∧ bar ≤ s.endBar ∧ t.startBar ≤ bar ∧ bar ≤ t.endBar)

/-- Where a span of the other side starts inside a span, that one gives way. -/
def Separated (own other : List WyckoffSchematicSpan) : Prop :=
  ∀ s ∈ own, ∀ t ∈ other, s.startBar ≠ t.startBar ∧
    (s.startBar < t.startBar → t.startBar ≤ s.endBar → GivesWay own other s t.startBar)

variable {own other : List WyckoffSchematicSpan} {s' t' : WyckoffSchematicSpan}

/-- A span that starts first is over when the other one starts, exactly when it gives way. -/
theorem Final.endBar_lt_iff (h : Final own other s s') (hst : s.startBar < t.startBar) :
    s'.endBar < t.startBar ↔ (t.startBar ≤ s.endBar → GivesWay own other s t.startBar) := by
  rw [h.ends t.startBar hst, ← not_lt, ← or_iff_not_imp_left]

/-- Two spans of opposite sides share a bar if neither is over when the other starts. -/
theorem disjoint_iff (hs : Final own other s s') (ht : Final other own t t') :
    (∀ bar, ¬ (s'.startBar ≤ bar ∧ bar ≤ s'.endBar ∧ t'.startBar ≤ bar ∧ bar ≤ t'.endBar)) ↔
      s.startBar ≠ t.startBar ∧ (s.startBar < t.startBar → t.startBar ≤ s.endBar → GivesWay own other s t.startBar)
        ∧ (t.startBar < s.startBar → s.startBar ≤ t.endBar → GivesWay other own t s.startBar) := by
  have hsle := hs.le
  have htle := ht.le
  rw [hs.startBar] at hsle
  rw [ht.startBar] at htle
  rw [hs.startBar, ht.startBar]
  rcases lt_trichotomy s.startBar t.startBar with hst | hst | hst
  · have hends := hs.endBar_lt_iff hst
    constructor
    · refine fun h => ⟨hst.ne, fun _ => hends.1 ?_, fun hts => absurd hts hst.not_gt⟩
      by_contra hge
      exact h t.startBar ⟨hst.le, not_lt.1 hge, le_rfl, htle⟩
    · rintro ⟨-, hgive, -⟩ bar ⟨-, hbar, hbar', -⟩
      exact absurd (hends.2 (hgive hst)) (by omega)
  · constructor
    · exact fun h => absurd ⟨le_rfl, hsle, hst.ge, hst ▸ htle⟩ (h s.startBar)
    · exact fun h => absurd hst h.1
  · have hends := ht.endBar_lt_iff hst
    constructor
    · refine fun h => ⟨hst.ne', fun hts => absurd hts hst.not_gt, fun _ => hends.1 ?_⟩
      by_contra hge
      exact h s.startBar ⟨le_rfl, hsle, hst.le, not_lt.1 hge⟩
    · rintro ⟨-, -, hgive⟩ bar ⟨hbar, -, -, hbar'⟩
      exact absurd (hends.2 (hgive hst)) (by omega)

theorem SideMutex.pair (h : SideMutex (classifySchematicPhases toF64 events bars tapeEndBar))
    (hs : s ∈ sideSpans toF64 events bars tapeEndBar .accumulation)
    (ht : t ∈ sideSpans toF64 events bars tapeEndBar .distribution) :
    s.startBar ≠ t.startBar ∧
      (s.startBar < t.startBar → t.startBar ≤ s.endBar →
        GivesWay (sideSpans toF64 events bars tapeEndBar .accumulation)
          (sideSpans toF64 events bars tapeEndBar .distribution) s t.startBar) ∧
      (t.startBar < s.startBar → s.startBar ≤ t.endBar →
        GivesWay (sideSpans toF64 events bars tapeEndBar .distribution)
          (sideSpans toF64 events bars tapeEndBar .accumulation) t s.startBar) := by
  obtain ⟨s', hs', hfs⟩ := exists_mem_final hs
  obtain ⟨t', ht', hft⟩ := exists_mem_final ht
  refine (disjoint_iff hfs hft).1 (h s' hs' t' ht' ?_ ?_)
  · exact hfs.direction.trans (ofSide_sideSpans hs).direction
  · exact hft.direction.trans (ofSide_sideSpans ht).direction

/-- **The side mutex** holds exactly when the spans of the two sides, as each side is classified on its own, are
separated. -/
theorem side_mutex_iff (toF64 : ℚ → Option F64) (events : List WyckoffEvent) (bars : List Bar) (tapeEndBar : ℕ) :
    SideMutex (classifySchematicPhases toF64 events bars tapeEndBar) ↔
      Separated (sideSpans toF64 events bars tapeEndBar .accumulation)
          (sideSpans toF64 events bars tapeEndBar .distribution) ∧
        Separated (sideSpans toF64 events bars tapeEndBar .distribution)
          (sideSpans toF64 events bars tapeEndBar .accumulation) := by
  constructor
  · intro hmutex
    constructor
    · intro s hs t ht
      obtain ⟨hne, hgive, -⟩ := hmutex.pair hs ht
      exact ⟨hne, hgive⟩
    · intro t ht s hs
      obtain ⟨hne, -, hgive⟩ := hmutex.pair hs ht
      exact ⟨hne.symm, hgive⟩
  · rintro ⟨hacc, hdist⟩ s' hs' t' ht' hsdir htdir
    obtain ⟨s, hs, hfs⟩ := exists_final_of_mem hs'
    obtain ⟨t, ht, hft⟩ := exists_final_of_mem ht'
    rw [hsdir] at hs hfs
    rw [htdir] at ht hft
    exact (disjoint_iff hfs hft).2 ⟨(hacc s hs t ht).1, (hacc s hs t ht).2, (hdist t ht s hs).2⟩

end output

/-! ## Spans that start together, and a span without a Phase A -/

def eventAt (kind : WyckoffEventKind) (variant : String) (barIndex : ℕ) : WyckoffEvent :=
  ⟨kind, variant, barIndex, .fin 100⟩

def phasesOf (events : List WyckoffEvent) : List WyckoffSchematicSpan :=
  classifySchematicPhases (some ∘ F64.round) events [] 199

theorem SideMutex.at_bar {out : List WyckoffSchematicSpan} (h : SideMutex out) (bar : ℕ) :
    ∀ s ∈ out, ∀ t ∈ out, s.direction = .accumulation → t.direction = .distribution →
      ¬ (s.startBar ≤ bar ∧ bar ≤ s.endBar ∧ t.startBar ≤ bar ∧ bar ≤ t.endBar) :=
  fun s hs t ht hsdir htdir => h s hs t ht hsdir htdir bar

/-- Both sides begin with a Phase A from bar 10 to bar 20. A Spring at bar 30 has no Phase A before it, and the
Distribution around it goes on. -/
theorem both_sides_at_once :
    ¬ SideMutex (phasesOf [eventAt .ps "bull" 10, eventAt .ar "bull" 20, eventAt .ps "bear" 10, eventAt .ar "bear" 20]) ∧
      ¬ SideMutex (phasesOf [eventAt .ps "bear" 10, eventAt .st "bear" 40, eventAt .spring "bull" 30]) := by
  constructor
  · intro h
    exact absurd (h.at_bar 10) (by decide +kernel)
  · intro h
    exact absurd (h.at_bar 30) (by decide +kernel)

end Qtss.Wyckoff
