import Qtss.Wyckoff.Cycle
import Mathlib.Data.List.Chain
/-
# The tiling of the events

"Build a contiguous tiling of cycle segments from Wyckoff events". Every transition of `detect_cycles` closes the
current tile on the bar where the next one opens, but a BC in an Accumulation and an SC in a Distribution also insert a
leg, which starts inside the tile just closed; where the leg has no room they turn one climax phase into the other.
`ClimaxesApart` says of the events when neither happens.
-/

namespace Qtss.Wyckoff

variable {toF64 : ℚ → Option F64} {bars : List CycleBar} {w : Walk} {ev e : WyckoffEvent} {evs : List WyckoffEvent}
  {a b cur prev t : WyckoffCycle} {q : WyckoffCyclePhase} {legs : WyckoffCycle → List WyckoffCycle} {bar : ℕ}

/-! ## What is asked of the tiles -/

/-- "The rotation alternates Acc → Markup → Dist → Markdown → Acc". -/
def Rotates (p q : WyckoffCyclePhase) : Prop :=
  (p = .accumulation → q = .accumulation ∨ q = .markup) ∧ (p = .distribution → q = .distribution ∨ q = .markdown)

instance : DecidableRel Rotates := fun _ _ => inferInstanceAs (Decidable (_ ∧ _))

def Follows (a b : WyckoffCycle) : Prop := a.endBar = b.startBar ∧ Rotates a.phase b.phase

instance : DecidableRel Follows := fun _ _ => inferInstanceAs (Decidable (_ ∧ _))

structure ContiguousTiling (tapeEndBar : ℕ) (tiles : List WyckoffCycle) : Prop where
  chronological : tiles.Pairwise fun a b => a.startBar ≤ b.startBar
  joined : tiles.IsChain fun a b => a.endBar = b.startBar
  rotation : tiles.IsChain fun a b => Rotates a.phase b.phase
  reaches : ∀ t ∈ tiles.getLast?, t.endBar = tapeEndBar

theorem isChain_follows {tiles : List WyckoffCycle} : tiles.IsChain Follows ↔
    (tiles.IsChain fun a b => a.endBar = b.startBar) ∧ tiles.IsChain fun a b => Rotates a.phase b.phase := by
  induction tiles with
  | nil => simp
  | cons a tiles ih =>
    rw [List.isChain_cons, List.isChain_cons, List.isChain_cons, ih]
    simp only [Follows]
    grind

theorem pairwise_of_follows {tiles : List WyckoffCycle} (hne : ∀ t ∈ tiles, t.startBar ≤ t.endBar)
    (h : tiles.IsChain Follows) : tiles.Pairwise fun a b => a.startBar ≤ b.startBar := by
  induction tiles with
  | nil => exact List.Pairwise.nil
  | cons a tiles ih =>
    obtain ⟨hhead, htail⟩ := List.isChain_cons.1 h
    have hsorted := ih (fun t ht => hne t (List.mem_cons_of_mem _ ht)) htail
    refine List.pairwise_cons.2 ⟨fun t ht => ?_, hsorted⟩
    rcases tiles with _ | ⟨b, tiles⟩
    · simp at ht
    · have hab : a.startBar ≤ b.startBar := (hne a List.mem_cons_self).trans (hhead b rfl).1.le
      rcases List.mem_cons.1 ht with rfl | ht
      · exact hab
      · exact hab.trans ((List.pairwise_cons.1 hsorted).1 t ht)

/-- What follows reads only where a tile starts and its phase. -/
theorem isChain_concat_congr {l : List WyckoffCycle} (hs : a.startBar = b.startBar) (hp : a.phase = b.phase) :
    (l ++ [a]).IsChain Follows ↔ (l ++ [b]).IsChain Follows := by
  simp only [List.isChain_append, List.isChain_singleton, List.head?_cons, Follows, hs, hp, true_and, Option.mem_some_iff,
    forall_eq']

/-! ## One event -/

def Walk.tiles (w : Walk) : List WyckoffCycle := w.out ++ w.current.toList

/-- What stands after the events up to a bar. -/
structure Walk.UpTo (w : Walk) (bar : ℕ) : Prop where
  forward : ∀ t ∈ w.tiles, t.startBar ≤ t.endBar
  reached : ∀ cur ∈ w.current, cur.endBar ≤ bar
  begun : w.current = none → w.out = []

theorem Walk.UpTo.start_le (h : w.UpTo bar) (hcur : w.current = some cur) : cur.startBar ≤ bar :=
  (h.forward cur (by simp [Walk.tiles, hcur])).trans (h.reached cur hcur)

@[simp] theorem startBar_closeSegment (n : ℕ) (p : F64) : (closeSegment toF64 bars t n p).startBar = t.startBar := rfl

@[simp] theorem phase_closeSegment (n : ℕ) (p : F64) : (closeSegment toF64 bars t n p).phase = t.phase := rfl

@[simp] theorem endBar_closeSegment (n : ℕ) (p : F64) : (closeSegment toF64 bars t n p).endBar = max n t.startBar := rfl

variable (toF64 bars) in
/-- The leg starts before the event, if there is one. -/
theorem inferredLeg_cases (phase : WyckoffCyclePhase) (prevStart : ℕ) (ev : WyckoffEvent) (found : ℕ × F64) :
    inferredLeg toF64 bars phase prevStart ev found = [] ∨
      ∃ leg, inferredLeg toF64 bars phase prevStart ev found = [leg] ∧ leg.startBar < ev.barIndex ∧
        leg.startBar ≤ leg.endBar := by
  unfold inferredLeg
  simp only
  generalize (if found.1 ≤ prevStart then prevStart + 1 else found.1) = idx
  split
  next hroom => exact .inr ⟨_, rfl, hroom, le_max_right _ _⟩
  next => exact .inl rfl

/-- A tile is closed where the next one opens. -/
theorem isChain_turn (h : w.UpTo bar) (hbar : bar ≤ ev.barIndex)
    (hcur : ∀ prev ∈ w.current, Rotates prev.phase q ∧ legs prev = []) :
    (w.turn toF64 bars ev q legs).tiles.IsChain Follows ↔ w.tiles.IsChain Follows := by
  rcases hc : w.current with _ | prev
  · have hout := h.begun hc
    simp [Walk.tiles, Walk.turn, hc, hout]
  · obtain ⟨hrot, hlegs⟩ := hcur prev hc
    have hstart := (h.start_le hc).trans hbar
    simp only [Walk.tiles, Walk.turn, hc, Option.toList_some, List.flatMap_singleton, hlegs, List.append_assoc,
      List.singleton_append]
    rw [List.isChain_split, isChain_concat_congr (startBar_closeSegment _ _) (phase_closeSegment _ _), List.isChain_pair]
    refine and_iff_left ⟨?_, hrot⟩
    rw [endBar_closeSegment, max_eq_left hstart]
    rfl

/-- A leg breaks the tiling, and so does a turn that does not rotate. -/
theorem not_isChain_turn (hcur : w.current = some prev) (hrot : ¬ Rotates prev.phase q)
    (h : w.UpTo bar) (hbar : bar ≤ ev.barIndex)
    (hlegs : legs prev = [] ∨ ∃ leg, legs prev = [leg] ∧ leg.startBar < ev.barIndex) :
    ¬ (w.turn toF64 bars ev q legs).tiles.IsChain Follows := by
  have hstart := (h.start_le hcur).trans hbar
  simp only [Walk.tiles, Walk.turn, hcur, Option.toList_some, List.flatMap_singleton, List.append_assoc, List.cons_append]
  rw [List.isChain_split]
  rintro ⟨-, hchain⟩
  rcases hlegs with hnil | ⟨leg, hleg, hlt⟩
  · rw [hnil, List.nil_append, List.isChain_pair] at hchain
    exact hrot hchain.2
  · rw [hleg, List.singleton_append, List.isChain_cons_cons] at hchain
    have hend := hchain.1.1
    rw [endBar_closeSegment, max_eq_left hstart] at hend
    exact absurd hend hlt.ne'

theorem upTo_turn (h : w.UpTo bar)
    (hlegs : ∀ prev ∈ w.current, ∀ leg ∈ legs prev, leg.startBar ≤ leg.endBar) :
    (w.turn toF64 bars ev q legs).UpTo ev.barIndex where
  forward t ht := by
    simp only [Walk.tiles, Walk.turn, List.mem_append, List.mem_flatMap, Option.mem_toList, List.mem_cons] at ht
    rcases ht with (ht | ⟨prev, hprev, rfl | hleg⟩) | ht
    · exact h.forward t (List.mem_append_left _ ht)
    · exact le_max_right _ _
    · exact hlegs prev hprev t hleg
    · obtain rfl := Option.mem_some_iff.1 ht
      exact le_rfl
  reached cur hcur := by
    obtain rfl := Option.mem_some_iff.1 hcur
    exact le_rfl
  begun hnone := by simp [Walk.turn] at hnone

/-- The event extends the tile that is open. -/
theorem upTo_extend (h : w.UpTo bar) (hbar : bar ≤ ev.barIndex) : (w.extend ev).UpTo ev.barIndex where
  forward t ht := by
    rcases List.mem_append.1 ht with ht | ht
    · exact h.forward t (List.mem_append_left _ ht)
    · obtain ⟨cur, hcur, rfl⟩ := Option.map_eq_some_iff.1 (Option.mem_toList.1 ht)
      have hle := h.forward cur (List.mem_append_right _ (Option.mem_toList.2 hcur))
      split
      next hlt => exact hle.trans hlt.le
      next => exact hle
  reached t ht := by
    obtain ⟨cur, hcur, rfl⟩ := Option.map_eq_some_iff.1 ht
    split
    next => exact le_rfl
    next => exact (h.reached cur hcur).trans hbar
  begun hnone := h.begun (Option.map_eq_none_iff.1 hnone)

theorem isChain_extend (w : Walk) (ev : WyckoffEvent) : (w.extend ev).tiles.IsChain Follows ↔ w.tiles.IsChain Follows := by
  rcases hc : w.current with _ | cur
  · simp [Walk.tiles, Walk.extend, hc]
  · simp only [Walk.tiles, Walk.extend, hc, Option.map_some, Option.toList_some]
    exact isChain_concat_congr (by split <;> rfl) (by split <;> rfl)

theorem phase_extend (w : Walk) (ev : WyckoffEvent) :
    (w.extend ev).current.map (·.phase) = w.current.map (·.phase) := by
  simp only [Walk.extend, Option.map_map]
  refine Option.map_congr fun cur _ => ?_
  simp only [Function.comp_apply]
  split <;> rfl

theorem Walk.UpTo.mono (h : w.UpTo bar) {bar' : ℕ} (hbar : bar ≤ bar') : w.UpTo bar' :=
  { h with reached := fun cur hcur => (h.reached cur hcur).trans hbar }

/-- The phase at an event. -/
def Walk.phase (w : Walk) : Option WyckoffCyclePhase := w.current.map (·.phase)

/-- The event makes of one climax phase the other. -/
def Walk.Crosses (w : Walk) (ev : WyckoffEvent) : Prop :=
  ev.kind = .bc ∧ w.phase = some .accumulation ∨ ev.kind = .sc ∧ w.phase = some .distribution

theorem upTo_react (h : w.UpTo bar) (hbar : bar ≤ ev.barIndex) : (w.react toF64 bars ev).UpTo ev.barIndex := by
  have hinferred : ∀ (phase : WyckoffCyclePhase) (prevStart : ℕ) (found : ℕ × F64),
      ∀ leg ∈ inferredLeg toF64 bars phase prevStart ev found, leg.startBar ≤ leg.endBar := by
    intro phase prevStart found leg hleg
    rcases inferredLeg_cases toF64 bars phase prevStart ev found with hnil | ⟨leg', heq, -, hle⟩
    · simp [hnil] at hleg
    · rw [heq, List.mem_singleton] at hleg
      exact hleg ▸ hle
  unfold Walk.react
  split
  · refine upTo_turn h fun prev _ leg hleg => ?_
    split at hleg
    · exact hinferred _ _ _ leg hleg
    · simp at hleg
  · refine upTo_turn h fun prev _ leg hleg => ?_
    split at hleg
    · exact hinferred _ _ _ leg hleg
    · simp at hleg
  all_goals first
    | split
      · exact upTo_turn h (by simp)
      · exact h.mono hbar
    | exact h.mono hbar

/-- A climax, over a tile of any phase but the other climax phase. -/
theorem isChain_turn_climax {p leg : WyckoffCyclePhase} (found : WyckoffCycle → ℕ × F64) (h : w.UpTo bar)
    (hbar : bar ≤ ev.barIndex) (hcross : ¬ Rotates p q) (hrot : ∀ r, r ≠ p → Rotates r q) :
    (w.turn toF64 bars ev q fun prev =>
        if prev.phase = p then inferredLeg toF64 bars leg prev.startBar ev (found prev) else []).tiles.IsChain Follows ↔
      w.tiles.IsChain Follows ∧ w.phase ≠ some p := by
  by_cases hphase : w.phase = some p
  · obtain ⟨prev, hcur, hp⟩ := Option.map_eq_some_iff.1 hphase
    refine iff_of_false (not_isChain_turn hcur (hp ▸ hcross) h hbar ?_) fun hand => hand.2 hphase
    rw [if_pos hp]
    exact (inferredLeg_cases _ _ _ _ _ _).imp_right fun ⟨leg, heq, hlt, _⟩ => ⟨leg, heq, hlt⟩
  · rw [and_iff_left hphase]
    refine isChain_turn h hbar fun prev hprev => ?_
    have hne : prev.phase ≠ p := fun heq => hphase (by rw [Walk.phase, hprev, Option.map_some, heq])
    exact ⟨hrot _ hne, if_neg hne⟩

theorem isChain_react_sc (h : w.UpTo bar) (hbar : bar ≤ ev.barIndex) (hkind : ev.kind = .sc) :
    (w.react toF64 bars ev).tiles.IsChain Follows ↔ w.tiles.IsChain Follows ∧ ¬ w.Crosses ev := by
  have hcross : w.Crosses ev ↔ w.phase = some .distribution := by simp [Walk.Crosses, hkind]
  rw [hcross, Walk.react, hkind]
  exact isChain_turn_climax _ h hbar (by decide) fun _ hne => ⟨fun _ => .inl rfl, fun heq => absurd heq hne⟩

theorem isChain_react_bc (h : w.UpTo bar) (hbar : bar ≤ ev.barIndex) (hkind : ev.kind = .bc) :
    (w.react toF64 bars ev).tiles.IsChain Follows ↔ w.tiles.IsChain Follows ∧ ¬ w.Crosses ev := by
  have hcross : w.Crosses ev ↔ w.phase = some .accumulation := by simp [Walk.Crosses, hkind]
  rw [hcross, Walk.react, hkind]
  exact isChain_turn_climax _ h hbar (by decide) fun _ hne => ⟨fun heq => absurd heq hne, fun _ => .inl rfl⟩

/-- A turn from one phase only, without legs. -/
theorem isChain_turn_from (h : w.UpTo bar) (hbar : bar ≤ ev.barIndex) {p q : WyckoffCyclePhase} (hrot : Rotates p q) :
    (if w.phase = some p then w.turn toF64 bars ev q fun _ => [] else w).tiles.IsChain Follows ↔
      w.tiles.IsChain Follows := by
  split
  next hphase =>
    refine isChain_turn h hbar fun prev hprev => ⟨?_, rfl⟩
    rw [Walk.phase, hprev, Option.map_some, Option.some_inj] at hphase
    rwa [hphase]
  next => exact Iff.rfl

/-- **One event.** The tiling holds on unless the event crosses. -/
theorem isChain_react (h : w.UpTo bar) (hbar : bar ≤ ev.barIndex) :
    (w.react toF64 bars ev).tiles.IsChain Follows ↔ w.tiles.IsChain Follows ∧ ¬ w.Crosses ev := by
  by_cases hsc : ev.kind = .sc
  · exact isChain_react_sc h hbar hsc
  by_cases hbc : ev.kind = .bc
  · exact isChain_react_bc h hbar hbc
  have hcross : ¬ w.Crosses ev := by simp [Walk.Crosses, hsc, hbc]
  rw [and_iff_left hcross]
  unfold Walk.react
  split
  case h_1 hkind => exact absurd hkind hsc
  case h_2 hkind => exact absurd hkind hbc
  case h_6 => exact isChain_turn_from h hbar (by decide)
  case h_7 => exact Iff.rfl
  all_goals exact isChain_turn_from h hbar (by decide)

/-! ## The events -/

/-- What ends an Accumulation or starts one. -/
def turnsAccumulation (ev : WyckoffEvent) : Bool := ev.kind ∈ [.sc, .bc, .bu, .sos, .lps]

/-- What ends a Distribution or starts one. -/
def turnsDistribution (ev : WyckoffEvent) : Bool := ev.kind ∈ [.sc, .bc, .sow]

/-- No BC comes right after an SC, and no SC right after a BC: between them the market leaves the range. -/
structure ClimaxesApart (evs : List WyckoffEvent) : Prop where
  accumulation : (evs.filter turnsAccumulation).IsChain fun a b => ¬ (a.kind = .sc ∧ b.kind = .bc)
  distribution : (evs.filter turnsDistribution).IsChain fun a b => ¬ (a.kind = .bc ∧ b.kind = .sc)

theorem isChain_concat {R : WyckoffEvent → WyckoffEvent → Prop} :
    (evs ++ [ev]).IsChain R ↔ evs.IsChain R ∧ ∀ a ∈ evs.getLast?, R a ev := by
  simp [List.isChain_append]

variable (toF64 bars) in
/-- The walk after the events. -/
def walk (evs : List WyckoffEvent) : Walk := evs.foldl (Walk.next toF64 bars) ⟨[], none⟩

theorem walk_concat (evs : List WyckoffEvent) (ev : WyckoffEvent) :
    walk toF64 bars (evs ++ [ev]) = ((walk toF64 bars evs).react toF64 bars ev).extend ev := by
  simp [walk, Walk.next]

theorem phase_turn : (w.turn toF64 bars ev q legs).phase = some q := rfl

theorem phase_react (w : Walk) (ev : WyckoffEvent) : (w.react toF64 bars ev).phase =
    match ev.kind with
    | .sc => some .accumulation
    | .bc => some .distribution
    | .bu | .sos | .lps => if w.phase = some .accumulation then some .markup else w.phase
    | .sow => if w.phase = some .distribution then some .markdown else w.phase
    | _ => w.phase := by
  unfold Walk.react
  generalize ev.kind = kind
  cases kind <;> simp only [phase_turn, apply_ite Walk.phase] <;> rfl

/-- A turn from the phase `p` leaves the open tile in no phase but the new one and those other than `p`. -/
theorem turnFrom_eq_some {phase : Option WyckoffCyclePhase} {p q r : WyckoffCyclePhase} (hqr : q ≠ r) :
    (if phase = some p then some q else phase) = some r ↔ p ≠ r ∧ phase = some r := by
  split
  next heq => simp [heq, hqr]
  next hne =>
    refine (and_iff_right_of_imp fun heq => ?_).symm
    rintro rfl
    exact hne heq

theorem accumulation_react (w : Walk) (ev : WyckoffEvent) : (w.react toF64 bars ev).phase = some .accumulation ↔
    if turnsAccumulation ev then ev.kind = .sc else w.phase = some .accumulation := by
  rw [phase_react, turnsAccumulation]
  generalize ev.kind = kind
  cases kind <;> simp [turnFrom_eq_some]

theorem distribution_react (w : Walk) (ev : WyckoffEvent) : (w.react toF64 bars ev).phase = some .distribution ↔
    if turnsDistribution ev then ev.kind = .bc else w.phase = some .distribution := by
  rw [phase_react, turnsDistribution]
  generalize ev.kind = kind
  cases kind <;> simp [turnFrom_eq_some]

theorem getLast?_filter_concat (p : WyckoffEvent → Bool) (evs : List WyckoffEvent) (ev : WyckoffEvent) :
    ((evs ++ [ev]).filter p).getLast?.map (·.kind) =
      if p ev then some ev.kind else (evs.filter p).getLast?.map (·.kind) := by
  rw [List.filter_append]
  by_cases hp : p ev <;> simp [hp]

/-- The tile open is an Accumulation when the last event that turns one is an SC, a Distribution when the last that
turns one is a BC. -/
theorem phase_walk (evs : List WyckoffEvent) :
    ((walk toF64 bars evs).phase = some .accumulation ↔
        (evs.filter turnsAccumulation).getLast?.map (·.kind) = some .sc) ∧
      ((walk toF64 bars evs).phase = some .distribution ↔
        (evs.filter turnsDistribution).getLast?.map (·.kind) = some .bc) := by
  induction evs using List.reverseRecOn with
  | nil => simp [walk, Walk.phase]
  | append_singleton evs ev ih =>
    rw [walk_concat, Walk.phase, phase_extend, ← Walk.phase, accumulation_react, distribution_react, ih.1, ih.2,
      getLast?_filter_concat, getLast?_filter_concat]
    constructor
    · split
      · exact Option.some_inj.symm
      · exact Iff.rfl
    · split
      · exact Option.some_inj.symm
      · exact Iff.rfl

theorem crosses_walk (evs : List WyckoffEvent) (ev : WyckoffEvent) : (walk toF64 bars evs).Crosses ev ↔
    ev.kind = .bc ∧ (evs.filter turnsAccumulation).getLast?.map (·.kind) = some .sc ∨
      ev.kind = .sc ∧ (evs.filter turnsDistribution).getLast?.map (·.kind) = some .bc := by
  rw [Walk.Crosses, (phase_walk evs).1, (phase_walk evs).2]

theorem chain_filter_concat {p : WyckoffEvent → Bool} {k k' : WyckoffEventKind} (hp : ev.kind = k' → p ev) :
    ((evs ++ [ev]).filter p).IsChain (fun a b => ¬ (a.kind = k ∧ b.kind = k')) ↔
      (evs.filter p).IsChain (fun a b => ¬ (a.kind = k ∧ b.kind = k')) ∧
        ¬ (ev.kind = k' ∧ (evs.filter p).getLast?.map (·.kind) = some k) := by
  rw [List.filter_append]
  by_cases hpe : p ev
  · rw [List.filter_singleton, hpe, cond_true, isChain_concat]
    refine and_congr_right fun _ => ?_
    rcases (evs.filter p).getLast? with _ | last <;> simp [imp_not_comm]
  · rw [List.filter_singleton, Bool.eq_false_iff.2 hpe, cond_false, List.append_nil]
    exact (and_iff_left fun h => hpe (hp h.1)).symm

theorem climaxesApart_concat (toF64 : ℚ → Option F64) (bars : List CycleBar) (evs : List WyckoffEvent)
    (ev : WyckoffEvent) : ClimaxesApart (evs ++ [ev]) ↔ ClimaxesApart evs ∧ ¬ (walk toF64 bars evs).Crosses ev := by
  have hiff : ∀ l, ClimaxesApart l ↔ (l.filter turnsAccumulation).IsChain (fun a b => ¬ (a.kind = .sc ∧ b.kind = .bc)) ∧
      (l.filter turnsDistribution).IsChain fun a b => ¬ (a.kind = .bc ∧ b.kind = .sc) :=
    fun l => ⟨fun h => ⟨h.accumulation, h.distribution⟩, fun h => ⟨h.1, h.2⟩⟩
  rw [hiff, hiff, crosses_walk, not_or, chain_filter_concat fun h => by simp [turnsAccumulation, h],
    chain_filter_concat fun h => by simp [turnsDistribution, h]]
  exact and_and_and_comm

theorem upTo_walk (toF64 : ℚ → Option F64) (bars : List CycleBar)
    (hsorted : evs.Pairwise fun e e' => e.barIndex ≤ e'.barIndex) (hbar : ∀ e ∈ evs, e.barIndex ≤ bar) :
    (walk toF64 bars evs).UpTo bar := by
  induction evs using List.reverseRecOn generalizing bar with
  | nil => exact ⟨by simp [walk, Walk.tiles], by simp [walk], by simp [walk]⟩
  | append_singleton evs ev ih =>
    obtain ⟨hevs, -, hlast⟩ := List.pairwise_append.1 hsorted
    rw [walk_concat]
    have hdone := ih hevs fun e he => hlast e he ev (List.mem_singleton_self ev)
    exact (upTo_extend (upTo_react hdone le_rfl) le_rfl).mono (hbar ev (by simp))

/-- **The events.** -/
theorem isChain_walk (toF64 : ℚ → Option F64) (bars : List CycleBar)
    (hsorted : evs.Pairwise fun e e' => e.barIndex ≤ e'.barIndex) :
    (walk toF64 bars evs).tiles.IsChain Follows ↔ ClimaxesApart evs := by
  induction evs using List.reverseRecOn with
  | nil => exact iff_of_true List.isChain_nil ⟨List.isChain_nil, List.isChain_nil⟩
  | append_singleton evs ev ih =>
    obtain ⟨hevs, -, hlast⟩ := List.pairwise_append.1 hsorted
    have hdone := upTo_walk toF64 bars hevs fun e he => hlast e he ev (List.mem_singleton_self ev)
    rw [walk_concat, isChain_extend, isChain_react hdone le_rfl, ih hevs, climaxesApart_concat toF64 bars]

/-! ## The end of the tape -/

variable (toF64 bars) in
theorem isChain_finish (tapeEndBar : ℕ) (tapeEndPrice : F64) :
    (w.finish toF64 bars tapeEndBar tapeEndPrice).IsChain Follows ↔ w.tiles.IsChain Follows := by
  rw [Walk.finish, Walk.tiles]
  rcases w.current with _ | cur
  · rfl
  · exact isChain_concat_congr rfl rfl

theorem forward_finish (h : w.UpTo bar) (tapeEndBar : ℕ) (tapeEndPrice : F64) :
    ∀ t ∈ w.finish toF64 bars tapeEndBar tapeEndPrice, t.startBar ≤ t.endBar := by
  intro t ht
  rcases List.mem_append.1 ht with ht | ht
  · exact h.forward t (List.mem_append_left _ ht)
  · obtain ⟨cur, hcur, rfl⟩ := List.mem_map.1 ht
    exact (h.forward cur (List.mem_append_right _ hcur)).trans (le_max_right _ _)

theorem reaches_finish {tapeEndBar : ℕ} (h : w.UpTo tapeEndBar) (tapeEndPrice : F64) :
    ∀ t ∈ (w.finish toF64 bars tapeEndBar tapeEndPrice).getLast?, t.endBar = tapeEndBar := by
  intro t ht
  rw [Walk.finish] at ht
  rcases hc : w.current with _ | cur
  · rw [hc, h.begun hc] at ht
    simp at ht
  · rw [hc, Option.toList_some, List.map_singleton, List.getLast?_concat, Option.mem_some_iff] at ht
    subst ht
    exact max_eq_left (h.reached cur hc)

/-- **A contiguous tiling**, exactly when the climaxes are apart. -/
theorem contiguousTiling_iff (toF64 : ℚ → Option F64) (bars : List CycleBar) (events : List WyckoffEvent)
    (tapeEndBar : ℕ) (tapeEndPrice : F64) (hend : ∀ e ∈ events, e.barIndex ≤ tapeEndBar) :
    ContiguousTiling tapeEndBar (detectCycles toF64 bars events tapeEndBar tapeEndPrice) ↔
      ClimaxesApart (events.insertionSort fun e e' => e.barIndex ≤ e'.barIndex) := by
  have hsorted := List.pairwise_insertionSort (fun e e' : WyckoffEvent => e.barIndex ≤ e'.barIndex) events
  have hupTo := upTo_walk toF64 bars hsorted fun e he => hend e ((List.mem_insertionSort _).1 he)
  rw [← isChain_walk toF64 bars hsorted, ← isChain_finish toF64 bars tapeEndBar tapeEndPrice]
  constructor
  · exact fun h => isChain_follows.2 ⟨h.joined, h.rotation⟩
  · intro h
    obtain ⟨hjoined, hrotation⟩ := isChain_follows.1 h
    exact ⟨pairwise_of_follows (forward_finish hupTo _ _) h, hjoined, hrotation, reaches_finish hupTo _⟩

/-- SC at 10, SOS at 20, BC at 30, SOW at 40: all four phases. -/
theorem contiguousTiling_rotation : ContiguousTiling 50 (detectCycles (fun q => some (.fin q)) []
    [⟨.bc, "bear", 30, .fin 130⟩, ⟨.sc, "bull", 10, .fin 100⟩, ⟨.sos, "bull", 20, .fin 110⟩, ⟨.sow, "bear", 40, .fin 120⟩]
    50 (.fin 105)) :=
  (contiguousTiling_iff _ _ _ 50 _ (by decide)).2 ⟨by decide, by decide⟩

/-- SC at 10, BC at 20: the Markup inserted starts on bar 19, inside the Accumulation that ends on bar 20. -/
theorem markup_inside_accumulation : ¬ ContiguousTiling 30 (detectCycles (fun q => some (.fin q)) []
    [⟨.sc, "bull", 10, .fin 100⟩, ⟨.bc, "bear", 20, .fin 120⟩] 30 (.fin 110)) :=
  fun h => absurd h.joined (by decide)

end Qtss.Wyckoff
