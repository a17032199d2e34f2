import Qtss.Wyckoff.Cycle
import Qtss.Lib.HalfOpen
import Qtss.Lib.StableSort
import Mathlib.Data.List.Chain
/-
# One timeline

"At any single bar there is exactly ONE active phase". `enforce_non_overlap_with_bars` lays the tiles in the order of
their rank on a timeline (`HalfOpen.lay`), so a bar belongs to the best tile that covers it; `dedupe_consecutive_same_phase`
then fuses neighbours of one phase, across gaps too, and takes no bar from a tile.
-/

namespace Qtss.Wyckoff
open HalfOpen (Covers)
open StableSort (FirstOf)

variable {toF64 : ℚ → Option F64} {bars : List CycleBar} {cycles placed done out : List WyckoffCycle}
  {c d prev t : WyckoffCycle} {bar : ℕ}

/-! ## Placing the tiles -/

@[simp] theorem range_clippedTo (c : WyckoffCycle) (segment : ℕ × ℕ) : (clippedTo toF64 bars c segment).range = segment := by
  unfold clippedTo
  simp only
  split <;> rfl

@[simp] theorem phase_clippedTo (c : WyckoffCycle) (segment : ℕ × ℕ) : (clippedTo toF64 bars c segment).phase = c.phase := by
  unfold clippedTo
  simp only
  split <;> rfl

theorem place_eq (placed : List WyckoffCycle) (c : WyckoffCycle) :
    place toF64 bars placed c = HalfOpen.lay WyckoffCycle.range (clippedTo toF64 bars) placed c := by
  unfold place HalfOpen.lay HalfOpen.minusAll
  rw [List.foldl_map]
  rfl

instance : Std.Total placedBefore := ⟨fun a b => by unfold placedBefore; omega⟩
instance : IsTrans WyckoffCycle placedBefore := ⟨fun a b c => by unfold placedBefore; omega⟩
instance : Std.Total byRange := ⟨fun a b => by unfold byRange; omega⟩
instance : IsTrans WyckoffCycle byRange := ⟨fun a b c => by unfold byRange; omega⟩
instance : Std.Total fun a b : WyckoffCycle => a.startBar ≤ b.startBar := ⟨fun _ _ => le_total _ _⟩
instance : IsTrans WyckoffCycle fun a b => a.startBar ≤ b.startBar := ⟨fun _ _ _ => le_trans⟩

/-- The tiles placed, in the order of their rank. -/
def laidTiles (toF64 : ℚ → Option F64) (bars : List CycleBar) (cycles : List WyckoffCycle) : List WyckoffCycle :=
  (cycles.insertionSort placedBefore).foldl (place toF64 bars) []

theorem enforce_eq (cycles : List WyckoffCycle) : enforceNonOverlapWithBars toF64 bars cycles =
    (laidTiles toF64 bars cycles).insertionSort fun a b => a.startBar ≤ b.startBar := by
  unfold enforceNonOverlapWithBars
  split
  next hnil =>
    rw [List.isEmpty_iff.1 hnil]
    rfl
  next => rfl

theorem laidTiles_eq : laidTiles toF64 bars cycles =
    (cycles.insertionSort placedBefore).foldl (HalfOpen.lay WyckoffCycle.range (clippedTo toF64 bars)) [] := by
  rw [laidTiles, funext₂ place_eq]

variable (toF64 bars) in
theorem laid_laidTiles (cycles : List WyckoffCycle) : HalfOpen.Laid WyckoffCycle.range WyckoffCycle.phase
    (cycles.insertionSort placedBefore) (laidTiles toF64 bars cycles) := by
  rw [laidTiles_eq]
  exact HalfOpen.foldl_lay_laid range_clippedTo phase_clippedTo _

/-! ## Fusing the neighbours -/

/-- One tile after the other. -/
structure Ordered (l : List WyckoffCycle) : Prop where
  nonempty : ∀ t ∈ l, t.startBar < t.endBar
  order : l.Pairwise fun a b => a.endBar ≤ b.startBar

theorem Ordered.disjoint (h : Ordered cycles) : cycles.Pairwise fun a b => HalfOpen.Disjoint a.range b.range := by
  refine h.order.imp fun hab x hx hx' => ?_
  exact absurd (hx.2.trans_le (hab.trans hx'.1)) (lt_irrefl x)

/-- Disjoint tiles, sorted. -/
theorem ordered_of_sorted (hne : ∀ t ∈ cycles, t.startBar < t.endBar)
    (hdisj : cycles.Pairwise fun a b => HalfOpen.Disjoint a.range b.range)
    (hsorted : cycles.Pairwise fun a b => a.startBar ≤ b.startBar) : Ordered cycles where
  nonempty := hne
  order := (hdisj.and hsorted).imp_of_mem fun _ hb h => h.1.le_of_le (hne _ hb) h.2

/-- What the loop of `dedupe_consecutive_same_phase` has after the tiles `done`; `out` is newest first. -/
structure FusedTo (done out : List WyckoffCycle) : Prop where
  nonempty : ∀ t ∈ out, t.startBar < t.endBar
  order : out.Pairwise fun a b => b.endBar ≤ a.startBar
  turns : out.IsChain fun a b => b.phase ≠ a.phase
  last : out.head?.map (·.endBar) = done.getLast?.map (·.endBar)
  /-- Each tile lies within one of its phase. -/
  within : ∀ c ∈ done, ∃ t ∈ out, t.phase = c.phase ∧ t.startBar ≤ c.startBar ∧ c.endBar ≤ t.endBar

theorem fusedTo_nil : FusedTo [] [] where
  nonempty t ht := by simp at ht
  order := List.Pairwise.nil
  turns := List.isChain_nil
  last := rfl
  within c hc := by simp at hc

theorem endBar_fuse (h : prev.endBar ≤ c.startBar) (hc : c.startBar < c.endBar) : (fuse prev c).endBar = c.endBar :=
  if_pos (h.trans_lt hc)

/-- The newest tile ends where the last one done does. -/
theorem FusedTo.head_le {older : List WyckoffCycle} (h : FusedTo done (prev :: older))
    (hdone : ∀ d ∈ done, d.endBar ≤ c.startBar) : prev.endBar ≤ c.startBar := by
  obtain ⟨d, hd, hend⟩ : ∃ d, done.getLast? = some d ∧ d.endBar = prev.endBar := by
    have hlast := h.last
    rw [List.head?_cons, Option.map_some] at hlast
    exact Option.map_eq_some_iff.1 hlast.symm
  rw [← hend]
  exact hdone d (List.mem_of_getLast? hd)

/-- **One tile more.** -/
theorem FusedTo.next (h : FusedTo done out) (hc : c.startBar < c.endBar)
    (hdone : ∀ d ∈ done, d.endBar ≤ c.startBar) : FusedTo (done ++ [c]) (fuseNext out c) := by
  have hgetLast : (done ++ [c]).getLast?.map (·.endBar) = some c.endBar := by simp
  rcases out with _ | ⟨prev, older⟩
  · have hnil : done = [] := by
      rw [List.eq_nil_iff_forall_not_mem]
      intro d hd
      obtain ⟨t, ht, -⟩ := h.within d hd
      simp at ht
    subst hnil
    exact ⟨by simpa [fuseNext] using hc, List.pairwise_singleton _ _, List.isChain_singleton _, rfl,
      by simp [fuseNext]⟩
  · have hprev := h.head_le hdone
    have hnonempty := h.nonempty prev List.mem_cons_self
    obtain ⟨hbefore, horder⟩ := List.pairwise_cons.1 h.order
    rw [fuseNext]
    split
    next hphase =>
      have hend := endBar_fuse hprev hc
      refine ⟨?_, List.pairwise_cons.2 ⟨hbefore, horder⟩, ?_, by rw [hgetLast, List.head?_cons, Option.map_some, hend], ?_⟩
      · intro t ht
        rcases List.mem_cons.1 ht with rfl | ht
        · rw [hend]
          exact (hnonempty.trans_le hprev).trans hc
        · exact h.nonempty t (List.mem_cons_of_mem _ ht)
      · exact List.isChain_cons.2 (List.isChain_cons.1 h.turns)
      · intro d hd
        rcases List.mem_append.1 hd with hd | hd
        · obtain ⟨t, ht, hphase', hstart, hle⟩ := h.within d hd
          rcases List.mem_cons.1 ht with rfl | ht
          · refine ⟨fuse t c, List.mem_cons_self, hphase', hstart, ?_⟩
            rw [hend]
            exact (hdone d hd).trans hc.le
          · exact ⟨t, List.mem_cons_of_mem _ ht, hphase', hstart, hle⟩
        · rw [List.mem_singleton.1 hd]
          exact ⟨fuse prev c, List.mem_cons_self, hphase, hnonempty.le.trans hprev, hend.ge⟩
    next hphase =>
      refine ⟨?_, List.pairwise_cons.2 ⟨?_, h.order⟩, List.isChain_cons_cons.2 ⟨hphase, h.turns⟩, by simp, ?_⟩
      · intro t ht
        rcases List.mem_cons.1 ht with rfl | ht
        · exact hc
        · exact h.nonempty t ht
      · intro t ht
        rcases List.mem_cons.1 ht with rfl | ht
        · exact hprev
        · exact (hbefore t ht).trans (hnonempty.le.trans hprev)
      · intro d hd
        rcases List.mem_append.1 hd with hd | hd
        · obtain ⟨t, ht, hin⟩ := h.within d hd
          exact ⟨t, List.mem_cons_of_mem _ ht, hin⟩
        · rw [List.mem_singleton.1 hd]
          exact ⟨c, List.mem_cons_self, rfl, le_rfl, le_rfl⟩

theorem foldl_fuseNext (h : Ordered cycles) : FusedTo cycles (cycles.foldl fuseNext []) := by
  induction cycles using List.reverseRecOn with
  | nil => exact fusedTo_nil
  | append_singleton cycles c ih =>
    obtain ⟨hl, -, hlast⟩ := List.pairwise_append.1 h.order
    rw [List.foldl_concat]
    exact (ih ⟨fun t ht => h.nonempty t (by simp [ht]), hl⟩).next (h.nonempty c (by simp))
      fun d hd => hlast d hd c (List.mem_singleton_self c)

/-- Neighbours of different phases stay as they are. -/
theorem foldl_fuseNext_of_turns (h : cycles.IsChain fun a b => a.phase ≠ b.phase) :
    cycles.foldl fuseNext [] = cycles.reverse := by
  induction cycles using List.reverseRecOn with
  | nil => rfl
  | append_singleton cycles c ih =>
    obtain ⟨hl, -, hlast⟩ := List.isChain_append.1 h
    rw [List.foldl_concat, ih hl, List.reverse_append, List.reverse_singleton]
    rcases hrev : cycles.reverse with _ | ⟨prev, older⟩
    · rfl
    · have hprev : cycles.getLast? = some prev := by rw [← List.head?_reverse, hrev, List.head?_cons]
      exact if_neg (hlast prev hprev c rfl)

/-! ## The two passes -/

/-- `dedupe_consecutive_same_phase` of `enforce_non_overlap_with_bars`, as `compute_wyckoff_view` calls them. -/
def mergedTimeline (toF64 : ℚ → Option F64) (bars : List CycleBar) (tiles : List WyckoffCycle) : List WyckoffCycle :=
  dedupeConsecutiveSamePhase (enforceNonOverlapWithBars toF64 bars tiles)

/-- "A single non-overlapping timeline" of the tiles. -/
structure OneTimeline (tiles out : List WyckoffCycle) : Prop where
  sorted : out.Pairwise fun a b => a.startBar ≤ b.startBar
  nonempty : ∀ t ∈ out, t.startBar < t.endBar
  disjoint : out.Pairwise fun a b => HalfOpen.Disjoint a.range b.range
  turns : out.IsChain fun a b => a.phase ≠ b.phase
  /-- A bar in a tile has a best tile, and lies in one tile of the timeline, which has its phase. -/
  owner : ∀ bar, (∃ c ∈ tiles, Covers c.range bar) → ∃ c, FirstOf placedBefore (Covers ·.range bar) tiles c ∧
    ∃ t, out.filter (Covers ·.range bar) = [t] ∧ t.phase = c.phase

variable (toF64 bars) in
theorem ordered_enforce (tiles : List WyckoffCycle) : Ordered (enforceNonOverlapWithBars toF64 bars tiles) := by
  have hlaid := laid_laidTiles toF64 bars tiles
  rw [enforce_eq]
  refine ordered_of_sorted (fun t ht => hlaid.nonempty t ((List.mem_insertionSort _).1 ht)) ?_
    (List.pairwise_insertionSort _ _)
  exact ((List.perm_insertionSort _ _).pairwise_iff fun h => h.symm).2 hlaid.disjoint

theorem Ordered.byRange (h : Ordered cycles) : cycles.Pairwise byRange :=
  h.order.imp_of_mem fun ha _ hab => .inl ((h.nonempty _ ha).trans_le hab)

theorem dedupe_of_ordered (h : Ordered cycles) :
    dedupeConsecutiveSamePhase cycles = (cycles.foldl fuseNext []).reverse := by
  rw [dedupeConsecutiveSamePhase, h.byRange.insertionSort_eq]

theorem fusedTo_mergedTimeline (tiles : List WyckoffCycle) :
    FusedTo (enforceNonOverlapWithBars toF64 bars tiles) (mergedTimeline toF64 bars tiles).reverse := by
  have h := ordered_enforce toF64 bars tiles
  rw [mergedTimeline, dedupe_of_ordered h, List.reverse_reverse]
  exact foldl_fuseNext h

theorem ordered_mergedTimeline (tiles : List WyckoffCycle) : Ordered (mergedTimeline toF64 bars tiles) where
  nonempty t ht := (fusedTo_mergedTimeline tiles).nonempty t (List.mem_reverse.2 ht)
  order := List.pairwise_reverse.1 (fusedTo_mergedTimeline tiles).order

theorem mergedTimeline_turns (tiles : List WyckoffCycle) :
    (mergedTimeline toF64 bars tiles).IsChain fun a b => a.phase ≠ b.phase :=
  List.isChain_reverse.1 (fusedTo_mergedTimeline tiles).turns

/-- The best tile on the bar, where the bar is in a tile. -/
theorem exists_best {tiles : List WyckoffCycle} (h : ∃ c ∈ tiles, Covers c.range bar) :
    ∃ c, (tiles.insertionSort placedBefore).find? (Covers ·.range bar) = some c := by
  obtain ⟨c, hc, hcov⟩ := h
  refine Option.isSome_iff_exists.1 (List.find?_isSome.2 ⟨c, (List.mem_insertionSort _).2 hc, ?_⟩)
  simpa using hcov

theorem mergedTimeline_owner {tiles : List WyckoffCycle} (h : ∃ c ∈ tiles, Covers c.range bar) :
    ∃ c, FirstOf placedBefore (Covers ·.range bar) tiles c ∧
      ∃ t, (mergedTimeline toF64 bars tiles).filter (Covers ·.range bar) = [t] ∧ t.phase = c.phase := by
  obtain ⟨c, hfind⟩ := exists_best h
  have hlaid := laid_laidTiles toF64 bars tiles
  have hcov : Covers c.range bar := by simpa using List.find?_some hfind
  obtain ⟨t, ht, hbar⟩ := hlaid.covered c (List.mem_of_find?_eq_some hfind) bar hcov
  obtain ⟨d, hd, hphase⟩ := hlaid.owner t ht bar hbar
  obtain rfl : c = d := Option.some.inj (hfind.symm.trans hd)
  have ht' : t ∈ enforceNonOverlapWithBars toF64 bars tiles := by
    rw [enforce_eq]
    exact (List.mem_insertionSort _).2 ht
  obtain ⟨u, hu, hphase', hstart, hend⟩ := (fusedTo_mergedTimeline tiles).within t ht'
  refine ⟨c, StableSort.firstOf_of_find?_insertionSort hfind, u, ?_, hphase'.trans hphase⟩
  exact HalfOpen.filter_covers (ordered_mergedTimeline tiles).disjoint (List.mem_reverse.1 hu)
    ⟨hstart.trans hbar.1, hbar.2.trans_le hend⟩

theorem oneTimeline_mergedTimeline (tiles : List WyckoffCycle) : OneTimeline tiles (mergedTimeline toF64 bars tiles) where
  sorted := (ordered_mergedTimeline tiles).order.imp_of_mem fun ha _ hab =>
    ((ordered_mergedTimeline tiles).nonempty _ ha).le.trans hab
  nonempty := (ordered_mergedTimeline tiles).nonempty
  disjoint := (ordered_mergedTimeline tiles).disjoint
  turns := mergedTimeline_turns tiles
  owner _ h := mergedTimeline_owner h

/-! ## Once more -/

/-- What a tile says of its bars. -/
def WyckoffCycle.label (c : WyckoffCycle) : WyckoffCyclePhase × ℕ × ℕ := (c.phase, c.range)

theorem label_clippedTo (c : WyckoffCycle) : (clippedTo toF64 bars c c.range).label = c.label := by
  rw [WyckoffCycle.label, phase_clippedTo, range_clippedTo, WyckoffCycle.label]

variable (toF64 bars) in
/-- Tiles one after the other keep their labels. -/
theorem label_enforce (h : Ordered cycles) :
    (enforceNonOverlapWithBars toF64 bars cycles).map WyckoffCycle.label = cycles.map WyckoffCycle.label := by
  have hsorted := List.perm_insertionSort placedBefore cycles
  have hlaid : laidTiles toF64 bars cycles =
      (cycles.insertionSort placedBefore).map fun c => clippedTo toF64 bars c c.range := by
    rw [laidTiles_eq]
    refine HalfOpen.foldl_lay_of_disjoint range_clippedTo (fun c hc => h.nonempty c ((List.mem_insertionSort _).1 hc)) ?_
    exact (hsorted.pairwise_iff fun h => h.symm).2 h.disjoint
  have hperm : ((enforceNonOverlapWithBars toF64 bars cycles).map WyckoffCycle.label).Perm
      (cycles.map WyckoffCycle.label) := by
    rw [enforce_eq, hlaid]
    refine ((List.perm_insertionSort _ _).map _).trans ?_
    rw [List.map_map, Function.comp_def, funext label_clippedTo]
    exact hsorted.map _
  have hstrict : ∀ {l : List WyckoffCycle}, Ordered l →
      (l.map WyckoffCycle.label).Pairwise fun a b => a.2.1 < b.2.1 := fun hl =>
    List.pairwise_map.2 (hl.order.imp_of_mem fun ha _ hab => (hl.nonempty _ ha).trans_le hab)
  exact hperm.eq_of_pairwise (fun a b _ _ hab hba => absurd (hab.trans hba) (lt_irrefl _))
    (hstrict (ordered_enforce toF64 bars cycles)) (hstrict h)

/-- **A timeline stays as it is.** -/
theorem label_mergedTimeline (h : Ordered cycles) (hturns : cycles.IsChain fun a b => a.phase ≠ b.phase) :
    (mergedTimeline toF64 bars cycles).map WyckoffCycle.label = cycles.map WyckoffCycle.label := by
  have hlabel := label_enforce toF64 bars h
  have hturns' : (enforceNonOverlapWithBars toF64 bars cycles).IsChain fun a b => a.phase ≠ b.phase := by
    have hmap : (cycles.map WyckoffCycle.label).IsChain fun a b => a.1 ≠ b.1 := (List.isChain_map _).2 hturns
    rw [← hlabel] at hmap
    exact (List.isChain_map WyckoffCycle.label).1 hmap
  rw [mergedTimeline, dedupe_of_ordered (ordered_enforce toF64 bars cycles), foldl_fuseNext_of_turns hturns',
    List.reverse_reverse, hlabel]

/-- **One active phase at every bar.** The two passes make one timeline of the tiles, and made again leave it as it
is. -/
theorem mergedTimeline_oneTimeline (toF64 : ℚ → Option F64) (bars : List CycleBar) (tiles : List WyckoffCycle) :
    OneTimeline tiles (mergedTimeline toF64 bars tiles) ∧
      (mergedTimeline toF64 bars (mergedTimeline toF64 bars tiles)).map (fun c => (c.phase, c.range)) =
        (mergedTimeline toF64 bars tiles).map fun c => (c.phase, c.range) :=
  ⟨oneTimeline_mergedTimeline tiles, label_mergedTimeline (ordered_mergedTimeline tiles) (mergedTimeline_turns tiles)⟩

end Qtss.Wyckoff
