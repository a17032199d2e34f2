import Qtss.Elliott.Ring
/-
# Are the motives genuine counts

A motive is made of the six newest slots of the ring, whatever is in them. Once six swings have been fed they are
swings, and the rules of `isWave` make it a count. Before that there are zero slots behind: a high that is the fourth or
the fifth swing can end a "count" whose first anchors are at bar 0 and at price 0. elliott_early.rs:1297 knows it ("Pine
port's ZigZag init can leak a price=0 anchor").

`isWave` compares how far the waves go in the direction of the motive. The zigzag skips bars that are at both extremes,
so that a high can be below the low before it: a wave 1 or 5 that runs backwards counts as the shorter one, however long
it is. `genuine_iff` says that these two are all that can be wrong, and that with signed lengths the zero slots are.
-/

namespace Qtss.Elliott
open Pivots

/-! ## Genuine -/

/-- The anchor equals an entry in bar, direction and price. -/
def Entry (pivots : List PivotPoint) (a : PivotPoint) : Prop := ∃ e ∈ pivots, e.spot = a.spot

/-- How far wave `i + 1` goes in the direction of the motive. -/
def MotivePattern.wave (m : MotivePattern) (i : Fin 5) : ℚ :=
  m.direction * ((m.anchors i.succ).price - (m.anchors i.castSucc).price)

/-- Wave 3 is longer than the shorter one of waves 1 and 5. The length is `abs` of how far a wave goes; `id` is that of
the code. -/
def LongThird (length : ℚ → ℚ) (wave : Fin 5 → ℚ) : Prop := min (length (wave 0)) (length (wave 4)) < length (wave 2)

instance (length : ℚ → ℚ) (wave : Fin 5 → ℚ) : Decidable (LongThird length wave) := inferInstanceAs (Decidable (_ < _))

structure Genuine (length : ℚ → ℚ) (pivots : List PivotPoint) (m : MotivePattern) : Prop where
  turns : ∀ i : Fin 5, (m.anchors i.castSucc).direction * (m.anchors i.succ).direction = -1
  later : ∀ i : Fin 5, (m.anchors i.castSucc).barIndex < (m.anchors i.succ).barIndex
  entries : ∀ i, Entry pivots (m.anchors i)
  wave3 : LongThird length m.wave
  wave2 : m.direction * (m.anchors 0).price ≤ m.direction * (m.anchors 2).price
  wave4 : m.direction * (m.anchors 1).price ≤ m.direction * (m.anchors 4).price
  wave5 : m.direction * (m.anchors 3).price < m.direction * (m.anchors 5).price
  abcStart : ∀ abc ∈ m.abc, (abc.anchors 0).spot = (m.anchors 5).spot
  abcEntries : ∀ abc ∈ m.abc, ∀ i, Entry pivots (abc.anchors i)

/-- All that a level is fed, newest first: its pivots and the provisional one. -/
def levelSwings (bars : List Bar) (cfg : PinePortConfig) (lc : LevelConfig) : List Swing :=
  let pivots := levelPivots bars cfg lc
  (pivots.map Swing.of ++ (provisionalPivot pivots bars).toList).reverse

/-- None of the counts that are kept ends before the sixth swing. -/
def StartsLate (r : List Swing) : Prop := ∀ c ∈ (countsOf r).take ewCap, 6 ≤ c.length

instance : DecidablePred StartsLate := fun _ => inferInstanceAs (Decidable (∀ c ∈ _, _))

/-- How far wave `i + 1` of a count goes in the direction of its last swing. -/
def countWave (c : List Swing) (i : Fin 5) : ℚ :=
  c.head?.elim 0 fun w => leg w.kind (slotAt c (5 - i)).y (slotAt c (4 - i)).y

/-- Where wave 1 or wave 5 of a count that is kept runs backwards, wave 3 is the longer one all the same. -/
def StaysLong (r : List Swing) : Prop :=
  ∀ c ∈ (countsOf r).take ewCap, countWave c 0 < 0 ∨ countWave c 4 < 0 → LongThird abs (countWave c)

instance : DecidablePred StaysLong := fun _ => inferInstanceAs (Decidable (∀ c ∈ _, _))

variable {r c : List Swing} {w : Swing} {s : LevelState} {cfg : PinePortConfig} {bars : List Bar} {lc : LevelConfig}
  {m : MotivePattern} {ps : List (ConfirmedPivot ℚ)} {pivots : List PivotPoint}

/-! ## The tape -/

theorem processSwing_eq (cfg : PinePortConfig) (s : LevelState) (w : Swing) :
    processSwing cfg s w = processPivot w.kind cfg s w.barIndex w.price := by
  unfold processSwing
  split
  next h => rw [h]; rfl
  next h => rw [h]; rfl

variable (cfg) in
theorem tracks_foldl (ws : List Swing) (h : Tracks r s) (hturn : Turning (ws.reverse ++ r)) :
    Tracks (ws.reverse ++ r) (ws.foldl (processSwing cfg) s) := by
  induction ws generalizing r s with
  | nil => exact h
  | cons w ws ih =>
    rw [List.reverse_cons, List.append_assoc] at hturn ⊢
    refine ih ?_ hturn
    rw [processSwing_eq]
    refine tracks_processPivot h ?_
    have hsuffix : w :: r <:+ ws.reverse ++ ([w] ++ r) := List.suffix_append _ _
    exact ⟨hturn.sorted.sublist hsuffix.sublist, hturn.alternate.suffix hsuffix⟩

theorem tracks_new : Tracks [] LevelState.new where
  ring := by
    funext i
    rw [slotAt_of_le (Nat.zero_le i)]
    unfold LevelState.slot
    split <;> rfl
  log := rfl
  waves := .nil

theorem tracks_processBreakBox (h : Tracks r s) (bar : Bar) (b : ℤ) : Tracks r (processBreakBox s bar b) := by
  have hframe : (processBreakBox s bar b).slot = s.slot ∧ (processBreakBox s bar b).pivotsLog = s.pivotsLog ∧
      (processBreakBox s bar b).ew = s.ew := by
    unfold processBreakBox
    repeat' split
    all_goals exact ⟨rfl, rfl, rfl⟩
  exact ⟨hframe.1.trans h.ring, hframe.2.1 ▸ h.log, hframe.2.2 ▸ h.waves⟩

/-- What is not at the bar is later. -/
theorem later_of_mem_dropWhile {b : ℕ} (hsorted : ps.Pairwise (·.barIndex < ·.barIndex))
    (hin : ∀ p ∈ ps, b ≤ p.barIndex)
    {p : ConfirmedPivot ℚ} (hp : p ∈ ps.dropWhile (·.barIndex = b)) : b + 1 ≤ p.barIndex := by
  induction ps with
  | nil => cases hp
  | cons q ps ih =>
    obtain ⟨hq, hsorted⟩ := List.pairwise_cons.1 hsorted
    obtain ⟨hle, hin⟩ := List.forall_mem_cons.1 hin
    rw [List.dropWhile_cons] at hp
    split at hp
    next => exact ih hsorted hin hp
    next hne =>
      have hlt : b < q.barIndex := lt_of_le_of_ne hle fun heq => hne (decide_eq_true heq.symm)
      rcases List.mem_cons.1 hp with rfl | hp
      exacts [hlt, hlt.trans (hq p hp)]

variable (cfg) in
/-- The pivots of the bars from `b` on are fed, each at its bar. -/
theorem tracks_bars (bars : List Bar) (b : ℕ) (h : Tracks r s) (hturn : Turning ((ps.map Swing.of).reverse ++ r))
    (hsorted : ps.Pairwise (·.barIndex < ·.barIndex)) (hin : ∀ p ∈ ps, b ≤ p.barIndex ∧ p.barIndex < b + bars.length) :
    Tracks ((ps.map Swing.of).reverse ++ r) ((bars.zipIdx b).foldl (onBar cfg) (s, ps)).1 := by
  induction bars generalizing b r s ps with
  | nil =>
    cases ps with
    | nil => exact h
    | cons p ps =>
      have hp := hin p (by simp)
      simp only [List.length_nil] at hp
      omega
  | cons bar bars ih =>
    let here := ps.takeWhile (·.barIndex = b)
    let later := ps.dropWhile (·.barIndex = b)
    have hsplit : ps = here ++ later := List.takeWhile_append_dropWhile.symm
    have hfed : (ps.map Swing.of).reverse ++ r =
        (later.map Swing.of).reverse ++ ((here.map Swing.of).reverse ++ r) := by
      rw [hsplit, List.map_append, List.reverse_append, List.append_assoc]
    rw [hfed] at hturn ⊢
    have hsuffix := List.suffix_append (later.map Swing.of).reverse ((here.map Swing.of).reverse ++ r)
    have hhere := tracks_foldl cfg (here.map Swing.of) h
      ⟨hturn.sorted.sublist hsuffix.sublist, hturn.alternate.suffix hsuffix⟩
    rw [List.foldl_map] at hhere
    rw [List.zipIdx_cons, List.foldl_cons]
    refine ih (b + 1) (tracks_processBreakBox hhere bar b) hturn
      (hsorted.sublist (List.dropWhile_sublist _)) fun p hp => ?_
    have hle := later_of_mem_dropWhile hsorted (fun p hp => (hin p hp).1) hp
    have hlt := (hin p ((List.dropWhile_sublist _).subset hp)).2
    rw [List.length_cons] at hlt
    omega

/-! ## The swings of a level turn -/

theorem numberedFrom_samplesFromBars (bars : List Bar) : NumberedFrom 0 (samplesFromBars bars) :=
  numberedFrom_zipIdx bars fun _ => rfl

theorem mem_drop_zipIdx {j : ℕ} {p : Bar × ℕ} (h : p ∈ bars.zipIdx.drop j) : j ≤ p.2 ∧ p.1 ∈ bars := by
  obtain ⟨i, hi, rfl⟩ := List.mem_iff_getElem.1 h
  rw [List.getElem_drop, List.getElem_zipIdx]
  exact ⟨by omega, List.getElem_mem _⟩

/-- The provisional pivot is of the other kind than the last one, at a later bar and at its extreme. -/
theorem provisionalPivot_spec (h : provisionalPivot ps bars = some w) :
    ∃ last ∈ ps.getLast?, w.kind = last.kind.opposite ∧ (last.barIndex : ℤ) < w.barIndex ∧
      ∃ b ∈ bars, w.price = b.value w.kind := by
  obtain ⟨last, hlast, hbest⟩ := Option.bind_eq_some_iff.1 h
  refine ⟨last, hlast, ?_⟩
  have hin : ∀ p ∈ bars.zipIdx.drop (last.barIndex + 1), (last.barIndex : ℤ) < (p.2 : ℤ) ∧ p.1 ∈ bars := by
    intro p hp
    obtain ⟨hlater, hmem⟩ := mem_drop_zipIdx hp
    exact ⟨by omega, hmem⟩
  simp only at hbest
  split at hbest
  next => cases hbest
  next start rest hdrop =>
    rw [hdrop] at hin
    obtain ⟨hstart, hrest⟩ := List.forall_mem_cons.1 hin
    obtain rfl := Option.some.inj hbest
    refine List.foldlRecOn (motive := fun w : Swing => w.kind = last.kind.opposite ∧
      (last.barIndex : ℤ) < w.barIndex ∧ ∃ b ∈ bars, w.price = b.value w.kind) rest _ ?_ fun best h p hp => ?_
    · exact ⟨rfl, hstart.1, start.1, hstart.2, rfl⟩
    · split
      next => exact ⟨rfl, (hrest p hp).1, p.1, (hrest p hp).2, rfl⟩
      next => exact h

/-- The pivots of a level: in order, in turn, each at a bar. -/
theorem levelPivots_spec (bars : List Bar) (cfg : PinePortConfig) (lc : LevelConfig) :
    Zigzag (levelPivots bars cfg lc) ∧ ∀ p ∈ levelPivots bars cfg lc, p.barIndex < bars.length ∧
      ∃ b ∈ bars, p.price = b.value p.kind := by
  have hread := read_computePivots (samplesFromBars bars) (lc.length % 2 ^ 32) (numberedFrom_samplesFromBars bars)
  obtain ⟨hzigzag, hsubset⟩ := filterProminence_zigzag ⟨hread.fed.sorted, hread.alternate⟩ cfg.minProminencePct
  refine ⟨hzigzag, fun p hp => ?_⟩
  have hlen : (samplesFromBars bars).length = bars.length := by simp [samplesFromBars]
  obtain ⟨a, ha, -, -, hprice⟩ := hread.source p (hsubset hp)
  obtain ⟨⟨b, j⟩, hb, rfl⟩ := List.mem_map.1 ha
  refine ⟨hlen ▸ hread.fed.old p (hsubset hp), b, (List.mem_zipIdx hb).2.2 ▸ List.getElem_mem _, ?_⟩
  rw [hprice]
  cases p.kind <;> rfl

theorem turning_of_zigzag (h : Zigzag ps) : Turning (ps.map Swing.of).reverse where
  sorted := List.pairwise_reverse.2 (List.pairwise_map.2 (h.sorted.imp Int.ofNat_lt.2))
  alternate := List.isChain_reverse.2 ((List.isChain_map Swing.of).2 h.alternate)

/-- A swing of the other kind, later than the last one. -/
theorem Turning.cons (h : Turning r) (hnext : ∀ v ∈ r.head?, w.kind = v.kind.opposite ∧ v.barIndex < w.barIndex) :
    Turning (w :: r) where
  sorted := by
    refine List.pairwise_cons.2 ⟨fun v hv => ?_, h.sorted⟩
    cases r with
    | nil => cases hv
    | cons u r =>
      have hu := (hnext u rfl).2
      rcases List.mem_cons.1 hv with rfl | hv
      exacts [hu, ((List.pairwise_cons.1 h.sorted).1 v hv).trans hu]
  alternate := List.isChain_cons.2 ⟨fun v hv => (hnext v hv).1, h.alternate⟩

theorem turning_levelSwings (bars : List Bar) (cfg : PinePortConfig) (lc : LevelConfig) :
    Turning (levelSwings bars cfg lc) := by
  have hturn := turning_of_zigzag (levelPivots_spec bars cfg lc).1
  unfold levelSwings
  simp only
  cases hprov : provisionalPivot (levelPivots bars cfg lc) bars with
  | none => simpa using hturn
  | some w =>
    obtain ⟨last, hlast, hkind, hbar, -⟩ := provisionalPivot_spec hprov
    rw [Option.toList_some, List.reverse_append, List.reverse_singleton, List.singleton_append]
    refine hturn.cons fun v hv => ?_
    rw [List.head?_reverse, List.getLast?_map, hlast] at hv
    obtain rfl := Option.some.inj hv
    exact ⟨hkind, hbar⟩

theorem price_pos (hbars : ∀ b ∈ bars, 0 < b.low ∧ b.low ≤ b.high) (hw : w ∈ levelSwings bars cfg lc) :
    0 < w.price := by
  have hvalue : ∀ b ∈ bars, ∀ k, 0 < b.value k := by
    intro b hb k
    obtain ⟨hlow, hhigh⟩ := hbars b hb
    cases k
    exacts [hlow.trans_le hhigh, hlow]
  rcases List.mem_append.1 (List.mem_reverse.1 hw) with hw | hw
  · obtain ⟨p, hp, rfl⟩ := List.mem_map.1 hw
    obtain ⟨-, b, hb, hprice⟩ := (levelPivots_spec bars cfg lc).2 p hp
    exact (hvalue b hb p.kind).trans_eq hprice.symm
  · obtain ⟨-, -, -, -, b, hb, hprice⟩ := provisionalPivot_spec (Option.mem_toList.1 hw)
    rw [hprice]
    exact hvalue b hb w.kind

/-! ## What a level returns -/

theorem shape_labelSubkind (m : MotivePattern) : (labelSubkind m).shape = m.shape := by
  simp only [labelSubkind, MotivePattern.shape, Option.map_map]
  rfl

theorem shapes_fuseLabels (ew : List MotivePattern) :
    (fuseLabels ew).map MotivePattern.shape = ew.map MotivePattern.shape := by
  unfold fuseLabels
  split
  next m0 m1 rest =>
    split
    next =>
      have hhide : ∀ (a : Fin 6 → PivotPoint) i j,
          (Function.update a i { a i with hideLabel := true } j).spot = (a j).spot :=
        fun a i => spot_update_label a i rfl
      have hrelabel : ∀ (a : Fin 4 → PivotPoint) i l j,
          (Function.update a i { a i with labelOverride := some l } j).spot = (a j).spot :=
        fun a i l => spot_update_label a i rfl
      simp only [List.map_cons, MotivePattern.shape, Option.map_map, Function.comp_def, hhide, hrelabel]
    next => rfl
  next => rfl

/-- The state after the last bar and the provisional pivot. -/
theorem tracks_level (bars : List Bar) (cfg : PinePortConfig) (lc : LevelConfig) :
    let pivots := levelPivots bars cfg lc
    let s := replay cfg bars pivots
    Tracks (levelSwings bars cfg lc) ((provisionalPivot pivots bars).elim s (processSwing cfg s)) := by
  obtain ⟨hzigzag, hspec⟩ := levelPivots_spec bars cfg lc
  have hreplay :
      Tracks ((levelPivots bars cfg lc).map Swing.of).reverse (replay cfg bars (levelPivots bars cfg lc)) := by
    have h := tracks_bars cfg bars 0 tracks_new (by simpa using turning_of_zigzag hzigzag) hzigzag.sorted
      fun p hp => ⟨Nat.zero_le _, by have := (hspec p hp).1; omega⟩
    rwa [List.append_nil] at h
  have hturn := turning_levelSwings bars cfg lc
  unfold levelSwings at hturn ⊢
  simp only at hturn ⊢
  cases hprov : provisionalPivot (levelPivots bars cfg lc) bars with
  | none =>
    rw [Option.toList_none, List.append_nil]
    exact hreplay
  | some w =>
    rw [hprov, Option.toList_some, List.reverse_append, List.reverse_singleton, List.singleton_append] at hturn
    rw [Option.toList_some, List.reverse_append, List.reverse_singleton, List.singleton_append, Option.elim_some,
      processSwing_eq]
    exact tracks_processPivot hreplay hturn

theorem runLevel_spec (bars : List Bar) (cfg : PinePortConfig) (lc : LevelConfig) :
    let r := levelSwings bars cfg lc
    Waves r (countsOf r) (runLevel bars cfg lc).motives ∧
      (runLevel bars cfg lc).pivots.map PivotPoint.spot = (r.map Swing.spot).reverse := by
  have h := tracks_level bars cfg lc
  refine ⟨?_, h.log⟩
  have hshapes := h.waves
  unfold Waves at hshapes ⊢
  rw [← shapes_fuseLabels] at hshapes
  have hlabel : MotivePattern.shape ∘ labelSubkind = MotivePattern.shape := funext shape_labelSubkind
  unfold runLevel
  simp only [List.map_map, hlabel]
  exact hshapes

/-! ## Counts and zero slots -/

theorem entry_iff (hlog : pivots.map PivotPoint.spot = (r.map Swing.spot).reverse) {a : PivotPoint} :
    Entry pivots a ↔ a.spot ∈ r.map Swing.spot := by
  rw [← List.mem_reverse, ← hlog, List.mem_map]
  rfl

theorem dir_mul_lt {k : PivotKind} {a b : ℚ} (h : moreExtreme k b a = true) : (k.dir : ℚ) * a < k.dir * b := by
  cases k <;> simpa [moreExtreme, PivotKind.dir] using h

/-- Wave 3 is not the shortest of the three. -/
theorem min_lt_of_ne {a b c : ℚ} (h : b ≠ min (min a b) c) : min a c < b := by
  by_contra hnot
  obtain ⟨ha, hc⟩ := le_min_iff.1 (not_lt.1 hnot)
  exact h (by rw [min_eq_right ha, min_eq_left hc])

/-- The rules, on six swings. -/
theorem counts_six {w1 w2 w3 w4 w5 w6 : Swing} {rest : List Swing}
    (h : Counts (w6 :: w5 :: w4 :: w3 :: w2 :: w1 :: rest)) :
    moreExtreme w6.kind w6.price w4.price ∧ moreExtreme w6.kind w3.price w1.price ∧
      moreExtreme w6.kind w5.price w2.price := by
  simp only [Counts, isWave, Bool.and_eq_true, decide_eq_true_eq] at h
  obtain ⟨⟨⟨-, h5⟩, h2⟩, h4⟩ := h
  exact ⟨h5, h2, h4⟩

/-- As the code measures, wave 3 of a count is long. -/
theorem longThird_of_counts (h : Counts c) : LongThird id (countWave c) := by
  cases c with
  | nil => cases h
  | cons w older =>
    simp only [Counts, isWave, Bool.and_eq_true, decide_eq_true_eq] at h
    exact min_lt_of_ne h.1.1.1

/-- Waves that go forward are as long as they go far. -/
theorem LongThird.of_forward {wave : Fin 5 → ℚ} (h : LongThird id wave) (h1 : 0 ≤ wave 0) (h5 : 0 ≤ wave 4) :
    LongThird abs wave := by
  have hthird : min (wave 0) (wave 4) < wave 2 := h
  have hpos : 0 ≤ wave 2 := (le_min h1 h5).trans hthird.le
  unfold LongThird
  rwa [abs_of_nonneg h1, abs_of_nonneg h5, abs_of_nonneg hpos]

theorem longThird_abs_iff (h : Counts c) :
    LongThird abs (countWave c) ↔ (countWave c 0 < 0 ∨ countWave c 4 < 0 → LongThird abs (countWave c)) := by
  refine ⟨fun hlong _ => hlong, fun hback => ?_⟩
  by_cases hforward : countWave c 0 < 0 ∨ countWave c 4 < 0
  · exact hback hforward
  · obtain ⟨h1, h5⟩ := not_or.1 hforward
    exact (longThird_of_counts h).of_forward (not_lt.1 h1) (not_lt.1 h5)

theorem Depicts.wave_eq (h : Depicts r c m.shape) : m.wave = countWave c := by
  obtain ⟨w, hw, hdirection, -⟩ := h.wave
  have hmotive : m.direction = w.kind.dir := hdirection
  have hprice : ∀ i, (m.anchors i).price = (slotAt c (5 - i)).y := fun i => (h.anchor i).2
  funext i
  rw [MotivePattern.wave, countWave, hw, hmotive, hprice, hprice]
  fin_cases i <;> rfl

/-- Six swings in a row turn five times. -/
theorem Turning.six {w1 w2 w3 w4 w5 w6 : Swing} {rest : List Swing}
    (h : Turning (w6 :: w5 :: w4 :: w3 :: w2 :: w1 :: rest)) (i : Fin 5) :
    let u := ![w1, w2, w3, w4, w5, w6]
    (u i.succ).kind.dir = -(u i.castSucc).kind.dir ∧ (u i.castSucc).barIndex < (u i.succ).barIndex := by
  have htail : ∀ {a b : Swing} {l : List Swing}, Turning (a :: b :: l) →
      (a.kind.dir = -b.kind.dir ∧ b.barIndex < a.barIndex) ∧ Turning (b :: l) :=
    fun h => ⟨⟨h.dir_eq, (List.pairwise_cons.1 h.sorted).1 _ (by simp)⟩, h.sorted.tail, h.alternate.tail⟩
  obtain ⟨h6, h⟩ := htail h
  obtain ⟨h5, h⟩ := htail h
  obtain ⟨h4, h⟩ := htail h
  obtain ⟨h3, h⟩ := htail h
  obtain ⟨h2, -⟩ := htail h
  fin_cases i
  exacts [h2, h3, h4, h5, h6]

theorem exists_six (h : 6 ≤ c.length) :
    ∃ w6 w5 w4 w3 w2 w1 rest, c = w6 :: w5 :: w4 :: w3 :: w2 :: w1 :: rest := by
  match c with
  | w6 :: w5 :: w4 :: w3 :: w2 :: w1 :: rest => exact ⟨w6, w5, w4, w3, w2, w1, rest, rfl⟩

/-- **Six swings and the rules make a count.** -/
theorem genuine_of_depicts (hturn : Turning r) (hlog : pivots.map PivotPoint.spot = (r.map Swing.spot).reverse)
    (hc : c ∈ countsOf r) (h : Depicts r c m.shape) (hlen : 6 ≤ c.length) {length : ℚ → ℚ}
    (hlong : LongThird length (countWave c)) : Genuine length pivots m := by
  obtain ⟨hsuffix, hcounts⟩ := mem_countsOf.1 hc
  obtain ⟨w, hw, hdirection, hanchors⟩ := h.wave
  have hturnc : Turning c := ⟨hturn.sorted.sublist hsuffix.sublist, hturn.alternate.suffix hsuffix⟩
  obtain ⟨w6, w5, w4, w3, w2, w1, rest, rfl⟩ := exists_six hlen
  obtain rfl := Option.some.inj hw
  let u := ![w1, w2, w3, w4, w5, w6]
  have hsix := hturnc.six
  have h65 : w6.kind.dir = -w5.kind.dir := (hsix 4).1
  have h54 : w5.kind.dir = -w4.kind.dir := (hsix 3).1
  have h43 : w4.kind.dir = -w3.kind.dir := (hsix 2).1
  have h32 : w3.kind.dir = -w2.kind.dir := (hsix 1).1
  have h21 : w2.kind.dir = -w1.kind.dir := (hsix 0).1
  have hd5 : -w6.kind.dir = w5.kind.dir := by omega
  have hd4 : w6.kind.dir = w4.kind.dir := by omega
  have hd3 : -w6.kind.dir = w3.kind.dir := by omega
  have hd2 : w6.kind.dir = w2.kind.dir := by omega
  have hd1 : -w6.kind.dir = w1.kind.dir := by omega
  -- the directions that the handler writes are those of the swings
  have hspot : ∀ i, (m.anchors i).spot = (u i).spot := by
    have hsame : ∀ (v : Swing) d, d = v.kind.dir → (v.barIndex, d, v.price) = v.spot := by
      rintro v _ rfl
      rfl
    intro i
    refine (hanchors i).trans ?_
    fin_cases i
    exacts [hsame w1 _ hd1, hsame w2 _ hd2, hsame w3 _ hd3, hsame w4 _ hd4, hsame w5 _ hd5, rfl]
  have hdir : ∀ i, (m.anchors i).direction = (u i).kind.dir := fun i => congrArg (fun p : Spot => p.2.1) (hspot i)
  have hbar : ∀ i, (m.anchors i).barIndex = (u i).barIndex := fun i => congrArg (fun p : Spot => p.1) (hspot i)
  have hprice : ∀ i, (m.anchors i).price = (u i).price := fun i => congrArg (fun p : Spot => p.2.2) (hspot i)
  have hmotive : m.direction = w6.kind.dir := hdirection
  obtain ⟨h5, h2, h4⟩ := counts_six hcounts
  exact {
    turns i := by rw [hdir, hdir, (hsix i).1, mul_neg, dir_mul_dir]
    later i := by
      rw [hbar, hbar]
      exact (hsix i).2
    entries i := by
      rw [entry_iff hlog, hspot]
      have hmem : u i ∈ w6 :: w5 :: w4 :: w3 :: w2 :: w1 :: rest := by fin_cases i <;> simp [u]
      exact List.mem_map_of_mem (hsuffix.subset hmem)
    wave3 := by
      rw [h.wave_eq]
      exact hlong
    wave2 := by
      rw [hprice, hprice, hmotive]
      exact (dir_mul_lt h2).le
    wave4 := by
      rw [hprice, hprice, hmotive]
      exact (dir_mul_lt h4).le
    wave5 := by
      rw [hprice, hprice, hmotive]
      exact dir_mul_lt h5
    abcStart abc habc := (h.abc_spots habc).1
    abcEntries abc habc i := (entry_iff hlog).2 ((h.abc_spots habc).2 i) }

/-- A count with a zero slot has an anchor at price 0, where there is no pivot. -/
theorem not_genuine_of_depicts (hpos : ∀ w ∈ r, 0 < w.price)
    (hlog : pivots.map PivotPoint.spot = (r.map Swing.spot).reverse) (h : Depicts r c m.shape) (hlen : c.length < 6)
    (length : ℚ → ℚ) : ¬ Genuine length pivots m := by
  intro hgenuine
  obtain ⟨w, hw, hspot⟩ := List.mem_map.1 ((entry_iff hlog).1 (hgenuine.entries 0))
  have hprice : w.price = (m.anchors 0).price := congrArg (fun p : Spot => p.2.2) hspot
  have hzero : (m.anchors 0).price = (slotAt c 5).y := (h.anchor 0).2
  rw [slotAt_of_le (by omega)] at hzero
  exact (hpos w hw).ne' (hprice.trans hzero)

/-! ## Every level -/

/-- A level's motives are genuine exactly when all its counts that are kept have six swings and a long wave 3. -/
theorem level_genuine_iff (hbars : ∀ b ∈ bars, 0 < b.low ∧ b.low ≤ b.high) (cfg : PinePortConfig) (lc : LevelConfig)
    (length : ℚ → ℚ) :
    (∀ m ∈ (runLevel bars cfg lc).motives, Genuine length (runLevel bars cfg lc).pivots m) ↔
      ∀ c ∈ (countsOf (levelSwings bars cfg lc)).take ewCap, 6 ≤ c.length ∧ LongThird length (countWave c) := by
  obtain ⟨hwaves, hlog⟩ := runLevel_spec bars cfg lc
  constructor
  · intro h c hc
    obtain ⟨m, hm, hdepicts⟩ := hwaves.exists_wave hc
    have hgenuine := h m hm
    refine ⟨?_, hdepicts.wave_eq ▸ hgenuine.wave3⟩
    by_contra hshort
    exact not_genuine_of_depicts (fun w hw => price_pos hbars hw) hlog hdepicts (not_le.1 hshort) length hgenuine
  · intro h m hm
    obtain ⟨c, hc, hdepicts⟩ := hwaves.exists_count hm
    obtain ⟨hlen, hlong⟩ := h c hc
    exact genuine_of_depicts (turning_levelSwings bars cfg lc) hlog (List.mem_of_mem_take hc) hdepicts hlen hlong

theorem counts_of_mem_take (hc : c ∈ (countsOf r).take ewCap) : Counts c :=
  (mem_countsOf.1 (List.mem_of_mem_take hc)).2

/-- With signed lengths the rules leave only the zero slots. -/
theorem level_genuine_id_iff (hbars : ∀ b ∈ bars, 0 < b.low ∧ b.low ≤ b.high) (cfg : PinePortConfig)
    (lc : LevelConfig) :
    (∀ m ∈ (runLevel bars cfg lc).motives, Genuine id (runLevel bars cfg lc).pivots m) ↔
      StartsLate (levelSwings bars cfg lc) := by
  rw [level_genuine_iff hbars]
  exact forall₂_congr fun c hc => and_iff_left (longThird_of_counts (counts_of_mem_take hc))

theorem level_genuine_abs_iff (hbars : ∀ b ∈ bars, 0 < b.low ∧ b.low ≤ b.high) (cfg : PinePortConfig)
    (lc : LevelConfig) :
    (∀ m ∈ (runLevel bars cfg lc).motives, Genuine abs (runLevel bars cfg lc).pivots m) ↔
      StartsLate (levelSwings bars cfg lc) ∧ StaysLong (levelSwings bars cfg lc) := by
  rw [level_genuine_iff hbars, StartsLate, StaysLong, ← forall₂_and]
  exact forall₂_congr fun c hc => and_congr_right fun _ => longThird_abs_iff (counts_of_mem_take hc)

/-- `run` goes over the levels one by one; without bars there are none, and no swings. -/
theorem run_levels_iff (bars : List Bar) (cfg : PinePortConfig) (length : ℚ → ℚ) {P : List Swing → Prop} (hnil : P [])
    (hlevel : ∀ lc, (∀ m ∈ (runLevel bars cfg lc).motives, Genuine length (runLevel bars cfg lc).pivots m) ↔
      P (levelSwings bars cfg lc)) :
    (∀ level ∈ (run bars cfg).levels, ∀ m ∈ level.motives, Genuine length level.pivots m) ↔
      ∀ lc ∈ cfg.levels, P (levelSwings bars cfg lc) := by
  cases bars with
  | nil =>
    have hnone : ∀ lc, levelSwings [] cfg lc = [] := by
      intro lc
      simp [levelSwings, levelPivots, filterProminence, computePivots, samplesFromBars, ZigZag.withLength,
        provisionalPivot]
    have hnolevel : ∀ level ∈ (run [] cfg).levels, ∀ m ∈ level.motives, Genuine length level.pivots m := by
      intro level hlevel
      cases hlevel
    refine iff_of_true hnolevel fun lc _ => ?_
    rwa [hnone lc]
  | cons bar bars =>
    have hlevels : (run (bar :: bars) cfg).levels = cfg.levels.map (runLevel (bar :: bars) cfg) := rfl
    rw [hlevels, List.forall_mem_map]
    exact forall₂_congr fun lc _ => hlevel lc

/-- **Genuine counts**: all motives that `run` returns are genuine counts on their level's pivots exactly when on no
level a count that is kept ends before the sixth swing, or has a wave 1 or 5 that runs backwards and a wave 3 that is no
longer than the shorter one. If a wave that runs backwards has a negative length, the first is all. -/
theorem genuine_iff (bars : List Bar) (cfg : PinePortConfig) (hbars : ∀ b ∈ bars, 0 < b.low ∧ b.low ≤ b.high) :
    ((∀ level ∈ (run bars cfg).levels, ∀ m ∈ level.motives, Genuine abs level.pivots m) ↔
      ∀ lc ∈ cfg.levels, StartsLate (levelSwings bars cfg lc) ∧ StaysLong (levelSwings bars cfg lc))
    ∧ ((∀ level ∈ (run bars cfg).levels, ∀ m ∈ level.motives, Genuine id level.pivots m) ↔
      ∀ lc ∈ cfg.levels, StartsLate (levelSwings bars cfg lc)) := by
  constructor
  · have hnil : StartsLate [] ∧ StaysLong [] := by decide
    exact run_levels_iff bars cfg abs (P := fun r => StartsLate r ∧ StaysLong r) hnil (level_genuine_abs_iff hbars cfg)
  · have hnil : StartsLate [] := by decide
    exact run_levels_iff bars cfg id hnil (level_genuine_id_iff hbars cfg)

/-! ## Three tapes -/

/-- One level, on which every bar that turns is a pivot. -/
def turnConfig : PinePortConfig := ⟨[⟨2, "#000"⟩], 500 / 1000, 618 / 1000, 764 / 1000, 854 / 1000, 0⟩

/-- From a high at 20 the price falls to 10 and counts up to 19. -/
def countedTape : List Bar := [⟨19, 18⟩, ⟨20, 19⟩, ⟨11, 10⟩, ⟨13, 12⟩, ⟨12, 11⟩, ⟨18, 17⟩, ⟨16, 15⟩, ⟨19, 18⟩]

theorem counted_genuine :
    (∀ level ∈ (run countedTape turnConfig).levels, ∀ m ∈ level.motives, Genuine abs level.pivots m)
      ∧ (run countedTape turnConfig).levels.map (fun level => level.motives.length) = [1] :=
  ⟨(genuine_iff countedTape turnConfig (by decide +kernel)).1.2 (by decide +kernel), by decide +kernel⟩

/-- Four swings up. -/
def shortTape : List Bar := [⟨11, 10⟩, ⟨9, 8⟩, ⟨13, 12⟩, ⟨10, 9⟩, ⟨15, 14⟩]

/-- The fourth of them ends a "count" that starts twice at bar 0, at price 0. -/
theorem short_tape_invents_anchors :
    (∀ b ∈ shortTape, 0 < b.low ∧ b.low ≤ b.high)
      ∧ (∀ length, ¬ ∀ level ∈ (run shortTape turnConfig).levels, ∀ m ∈ level.motives, Genuine length level.pivots m)
      ∧ (run shortTape turnConfig).levels.map (fun level => level.motives.map fun m => (List.finRange 6).map fun i =>
          (m.anchors i).spot) = [[[(0, -1, 0), (0, 1, 0), (1, -1, 8), (2, 1, 13), (3, -1, 9), (4, 1, 15)]]]
      ∧ (run shortTape turnConfig).levels.map (fun level => level.pivots.map PivotPoint.spot) =
        [[(1, -1, 8), (2, 1, 13), (3, -1, 9), (4, 1, 15)]] := by
  have hbars : ∀ b ∈ shortTape, 0 < b.low ∧ b.low ≤ b.high := by decide +kernel
  refine ⟨hbars, fun length h => ?_, by decide +kernel, by decide +kernel⟩
  have hcounts := (level_genuine_iff hbars turnConfig ⟨2, "#000"⟩ length).1 (h _ List.mem_cons_self)
  have hlate : StartsLate (levelSwings shortTape turnConfig ⟨2, "#000"⟩) := fun c hc => (hcounts c hc).1
  exact absurd hlate (by decide +kernel)

/-- The bars from 103 to 90 and from 110 to 91 are at both extremes. -/
def backTape : List Bar :=
  [⟨102, 101⟩, ⟨101, 100⟩, ⟨103, 90⟩, ⟨92, 91⟩, ⟨93, 92⟩, ⟨110, 91⟩, ⟨106, 105⟩, ⟨105, 104⟩, ⟨108, 105⟩, ⟨107, 100⟩,
    ⟨109, 103⟩]

/-- Up from 100 to 93, from 104 to 108 and from 100 to 109: wave 3 is the shortest, and the count stands. -/
example : (run backTape turnConfig).levels.map (fun level => level.motives.map fun m => (List.finRange 6).map fun i =>
      (m.anchors i).price) = [[[100, 93, 104, 108, 100, 109]]]
    ∧ StartsLate (levelSwings backTape turnConfig ⟨2, "#000"⟩)
    ∧ ¬ StaysLong (levelSwings backTape turnConfig ⟨2, "#000"⟩) := by
  decide +kernel

end Qtss.Elliott
