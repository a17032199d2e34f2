import Qtss.Pivots.Engine
/-
# Bars out of order (`qtss-pivots/src/engine.rs:63-72`)

`on_bar` counts a bar before it looks at the bar's time, so a bar that it rejects takes an index
("non-monotonic bar timestamp at index {0}"), and nothing else of the engine changes. No decision
reads an index: the engine commutes with every renumbering of the bars (`onBar_renumber`). So the
bars after a rejected one get the answers they would have got without it, one index higher
(`rejected_counts`).
-/

namespace Qtss.Pivots
open Runs Window

variable {P : Type*}

/-- What `on_bar` returns. -/
abbrev Answer (P : Type*) := Except PivotError (List (NewPivot P))

/-! ## Renumbering -/

section renumber
variable (ρ : ℕ → ℕ)

def Sample.renumber (s : Sample P) : Sample P := { s with barIndex := ρ s.barIndex }

def ConfirmedPivot.renumber (p : ConfirmedPivot P) : ConfirmedPivot P :=
  { p with barIndex := ρ p.barIndex }

def Pivot.renumber (p : Pivot P) : Pivot P := { p with barIndex := ρ p.barIndex }

def ZigZag.renumber (z : ZigZag P) : ZigZag P :=
  { z with window := z.window.map (·.renumber ρ), pivots := z.pivots.map (·.renumber ρ) }

def NewPivot.renumber (n : NewPivot P) : NewPivot P := { n with pivot := n.pivot.renumber ρ }

def PivotError.renumber : PivotError → PivotError
  | .invalidConfig text => .invalidConfig text
  | .nonMonotonic barIndex => .nonMonotonic (ρ barIndex)

def Answer.renumber : Answer P → Answer P
  | .error err => .error (err.renumber ρ)
  | .ok new => .ok (new.map (·.renumber ρ))

def PivotEngine.renumber (e : PivotEngine P) : PivotEngine P :=
  ⟨ρ e.barIndex, e.lastTime, fun level => (e.zigzags level).renumber ρ,
    fun level => (e.confirmed level).map (·.renumber ρ)⟩

def PivotTree.renumber (t : PivotTree P) : PivotTree P :=
  ⟨fun level => (t.levels level).map (·.renumber ρ)⟩

end renumber

/-- The answers to the bars, one after the other. -/
def PivotEngine.answers [LinearOrder P] [Sub P] [Zero P] (e : PivotEngine P) :
    List (Bar P) → List (Answer P)
  | [] => []
  | bar :: bars => (e.onBar bar).2 :: (e.step bar).answers bars

section commute
variable {ρ : ℕ → ℕ}

theorem ZigZag.next_renumber (z : ZigZag P) (s : Sample P) :
    (z.renumber ρ).next (s.renumber ρ) = (z.next s).map (·.renumber ρ) := by
  have hconcat : (z.renumber ρ).window ++ [s.renumber ρ] = (z.window ++ [s]).map (·.renumber ρ) := by
    rw [List.map_append]
    rfl
  rw [next, next, hconcat, List.rtake, List.rtake, List.length_map, List.map_drop]
  rfl

theorem Sample.value_renumber (s : Sample P) (k : PivotKind) : (s.renumber ρ).value k = s.value k := by
  cases k <;> rfl

/-- The pivots under a new head. -/
theorem ZigZag.base_renumber (z : ZigZag P) (k : PivotKind) :
    (z.renumber ρ).base k = (z.base k).map (·.renumber ρ) := by
  have hdir : (z.renumber ρ).dir = z.dir := rfl
  rw [base, base, hdir]
  split
  · exact List.map_dropLast.symm
  · rfl

variable [LinearOrder P]

theorem atExtreme_renumber {w : List (Sample P)} {s : Sample P} {k : PivotKind} :
    AtExtreme (w.map (·.renumber ρ)) (s.renumber ρ) k ↔ AtExtreme w s k := by
  simp only [AtExtreme, List.forall_mem_map, Sample.value_renumber]

theorem ZigZag.signals_renumber {z : ZigZag P} {s : Sample P} {k : PivotKind} :
    (z.renumber ρ).Signals (s.renumber ρ) k ↔ z.Signals s k := by
  simp only [Signals, next_renumber, atExtreme_renumber, List.length_map]
  rfl

theorem ZigZag.holds_renumber {z : ZigZag P} {s : Sample P} {k : PivotKind} :
    (z.renumber ρ).Holds (s.renumber ρ) k ↔ z.Holds s k := by
  have hlast : (z.renumber ρ).pivots.getLast? = z.pivots.getLast?.map (·.renumber ρ) :=
    List.getLast?_map
  rw [Holds, Holds, Sample.value_renumber, hlast]
  cases z.pivots.getLast? with
  | none => simp
  | some last => simp [renumber, ConfirmedPivot.renumber]

theorem classifySwing_renumber (confirmed : List (Pivot P)) (new : Pivot P) :
    classifySwing (confirmed.map (·.renumber ρ)) (new.renumber ρ) = classifySwing confirmed new := by
  rw [classifySwing, ← List.map_reverse, List.find?_map, Option.map_map]
  rfl

/-- The stored pivot. -/
theorem confirm_renumber (level : PivotLevel) (confirmed : List (Pivot P)) (cp : ConfirmedPivot P) :
    confirm level (confirmed.map (·.renumber ρ)) (cp.renumber ρ) =
      (confirm level confirmed cp).map fun r => (r.1.map (·.renumber ρ), r.2.renumber ρ) := by
  have hlast : (confirmed.map (·.renumber ρ)).getLast?.filter (·.kind = (cp.renumber ρ).kind) =
      (confirmed.getLast?.filter (·.kind = cp.kind)).map (·.renumber ρ) := by
    rw [List.getLast?_map, Option.filter_map]
    rfl
  have hclassify (before : List (Pivot P)) :
      classifySwing (before.map (·.renumber ρ)) (buildPivot (cp.renumber ρ) level) =
        classifySwing before (buildPivot cp level) :=
    classifySwing_renumber before (buildPivot cp level)
  rw [confirm, confirm, hlast]
  cases confirmed.getLast?.filter (·.kind = cp.kind) with
  | none =>
    simp only [Option.map_none, Option.map_some, hclassify, List.map_append]
    rfl
  | some last =>
    have hkeep : keepNew (cp.renumber ρ).kind (buildPivot (cp.renumber ρ) level).price
        (last.renumber ρ).price = keepNew cp.kind (buildPivot cp level).price last.price := rfl
    simp only [Option.map_some, hkeep, ← List.map_dropLast, hclassify]
    split
    · rfl
    · rw [Option.map_some, List.map_append]
      rfl

variable [Sub P] [Zero P]

theorem ZigZag.pivotOf_renumber (z : ZigZag P) (s : Sample P) (k : PivotKind) :
    (z.renumber ρ).pivotOf (s.renumber ρ) k = (z.pivotOf s k).renumber ρ := by
  unfold pivotOf
  simp only [base_renumber, Sample.value_renumber, List.length_map, List.getElem?_map,
    List.getLast?_map, Option.any_map]
  cases (z.base k).getLast? <;> rfl

theorem ZigZag.record_renumber (z : ZigZag P) (w : List (Sample P)) (s : Sample P) (k : PivotKind) :
    (z.renumber ρ).record (w.map (·.renumber ρ)) (s.renumber ρ) k.dir =
      ((z.record w s k.dir).1.renumber ρ, (z.record w s k.dir).2.map (·.renumber ρ)) := by
  rcases (z.renumber ρ).record_eq (w.map (·.renumber ρ)) (s.renumber ρ) k with
    ⟨hheld, hr⟩ | ⟨hheld, hr⟩
  · rcases z.record_eq w s k with ⟨-, hr'⟩ | ⟨hnot, -⟩
    · rw [hr, hr']
      rfl
    · exact absurd (holds_renumber.1 hheld) hnot
  · rcases z.record_eq w s k with ⟨hheld', -⟩ | ⟨-, hr'⟩
    · exact absurd (holds_renumber.2 hheld') hheld
    · rw [hr, hr', base_renumber, pivotOf_renumber]
      simp only [renumber, Option.map_some, List.map_append, List.map_singleton]

/-- **One bar** of the detector. -/
theorem ZigZag.push_renumber (z : ZigZag P) (s : Sample P) :
    (z.renumber ρ).push (s.renumber ρ) =
      ((z.push s).1.renumber ρ, (z.push s).2.map (·.renumber ρ)) := by
  rcases (z.renumber ρ).push_eq (s.renumber ρ) with ⟨hno, hp⟩ | ⟨k, hk, hp⟩
  · rcases z.push_eq s with ⟨-, hp'⟩ | ⟨k, hk, -⟩
    · rw [hp, hp', next_renumber]
      rfl
    · exact absurd (signals_renumber.2 hk) (hno k)
  · rcases z.push_eq s with ⟨hno, -⟩ | ⟨k', hk', hp'⟩
    · exact absurd (signals_renumber.1 hk) (hno k)
    · obtain rfl := hk'.unique (signals_renumber.1 hk)
      rw [hp, hp', next_renumber, record_renumber]

theorem step_barIndex (e : PivotEngine P) (bar : Bar P) : (e.step bar).barIndex = e.barIndex + 1 := by
  by_cases hacc : e.Accepts bar
  · exact (step_accepted hacc).1
  · rw [step_rejected hacc]

/-- **One bar** of the engine: its state and its answer are numbered anew. -/
theorem onBar_renumber {e : PivotEngine P} (hρ : ρ (e.barIndex + 1) = ρ e.barIndex + 1) (bar : Bar P) :
    (e.renumber ρ).onBar bar = ((e.onBar bar).1.renumber ρ, Answer.renumber ρ (e.onBar bar).2) := by
  by_cases hacc : e.Accepts bar
  · have hacc' : (e.renumber ρ).Accepts bar := hacc
    have hrecorded (level : PivotLevel) :
        (((e.renumber ρ).zigzags level).push ((e.renumber ρ).sample bar)).2.bind
            (confirm level ((e.renumber ρ).confirmed level)) =
          (((e.zigzags level).push (e.sample bar)).2.bind (confirm level (e.confirmed level))).map
            fun r => (r.1.map (·.renumber ρ), r.2.renumber ρ) := by
      have hpush : (((e.renumber ρ).zigzags level).push ((e.renumber ρ).sample bar)) = _ :=
        (e.zigzags level).push_renumber (e.sample bar)
      rw [hpush, Option.bind_map, Option.map_bind]
      exact congrArg (Option.bind _) (funext fun cp => confirm_renumber level _ cp)
    have hpushed (level : PivotLevel) :
        (((e.renumber ρ).zigzags level).push ((e.renumber ρ).sample bar)).1 =
          ((e.zigzags level).push (e.sample bar)).1.renumber ρ :=
      congrArg Prod.fst ((e.zigzags level).push_renumber (e.sample bar))
    unfold PivotEngine.onBar
    rw [if_neg (not_not_intro hacc), if_neg (not_not_intro hacc')]
    simp only [hrecorded, hpushed]
    refine Prod.ext ?_ ?_
    · simp only [PivotEngine.renumber, hρ]
      congr 1
      funext level
      cases ((e.zigzags level).push (e.sample bar)).2.bind (confirm level (e.confirmed level)) <;> rfl
    · simp only [Answer.renumber, List.map_filterMap, Option.map_map]
      rfl
  · have hacc' : ¬ (e.renumber ρ).Accepts bar := hacc
    unfold PivotEngine.onBar
    rw [if_pos hacc, if_pos hacc']
    simp only [PivotEngine.renumber, Answer.renumber, PivotError.renumber, hρ]

/-- **A run** of the engine. -/
theorem answers_renumber {e : PivotEngine P} (hρ : ∀ i, e.barIndex ≤ i → ρ (i + 1) = ρ i + 1)
    (bars : List (Bar P)) :
    (e.renumber ρ).answers bars = (e.answers bars).map (Answer.renumber ρ)
    ∧ run PivotEngine.step (e.renumber ρ) bars = (run PivotEngine.step e bars).renumber ρ := by
  induction bars generalizing e with
  | nil => exact ⟨rfl, rfl⟩
  | cons bar bars ih =>
    have hbar := onBar_renumber (hρ _ le_rfl) bar
    have hstep : (e.renumber ρ).step bar = (e.step bar).renumber ρ := congrArg Prod.fst hbar
    obtain ⟨hanswers, hrun⟩ := ih (e := e.step bar) fun i hi => hρ i (by
      rw [step_barIndex] at hi
      omega)
    refine ⟨?_, ?_⟩
    · rw [PivotEngine.answers, PivotEngine.answers, List.map_cons, hstep, hanswers]
      exact congrArg₂ _ (congrArg Prod.snd hbar) rfl
    · rw [run_cons, run_cons, hstep, hrun]

end commute

/-! ## A rejected bar -/

/-- Makes room for one more at `n`. -/
def makeRoom (n i : ℕ) : ℕ := if i < n then i else i + 1

/-- The windows hold bars that were fed. -/
def PivotEngine.Numbered (e : PivotEngine P) : Prop :=
  ∀ level, ∀ s ∈ (e.zigzags level).window, s.barIndex < e.barIndex

section rejected
variable [LinearOrder P] [Sub P] [Zero P] {e : PivotEngine P} {ρ : ℕ → ℕ}

omit [LinearOrder P] [Sub P] [Zero P] in
theorem numbered_new {config : PivotConfig} (h : PivotEngine.new config = .ok e) :
    e.Numbered ∧ e.barIndex = 0 := by
  unfold PivotEngine.new at h
  split at h
  · cases h
  · cases h
    exact ⟨fun _ _ hs => absurd hs List.not_mem_nil, rfl⟩

theorem numbered_step (h : e.Numbered) (bar : Bar P) : (e.step bar).Numbered := by
  intro level s hs
  rw [step_barIndex]
  by_cases hacc : e.Accepts bar
  · rw [(step_accepted hacc).2.1, (ZigZag.push_window _ _).1] at hs
    rcases List.mem_append.1 (rtake_subset _ hs) with hs | hs
    · exact (h level s hs).trans (Nat.lt_succ_self _)
    · rw [List.mem_singleton.1 hs]
      exact Nat.lt_succ_self _
  · rw [step_rejected hacc] at hs
    exact (h level s hs).trans (Nat.lt_succ_self _)

theorem run_barIndex (e : PivotEngine P) (bars : List (Bar P)) :
    (run PivotEngine.step e bars).barIndex = e.barIndex + bars.length := by
  induction bars generalizing e with
  | nil => rfl
  | cons bar bars ih =>
    rw [run_cons, ih, step_barIndex, List.length_cons]
    omega

omit [LinearOrder P] [Sub P] [Zero P] in
/-- All that the engine has stored is numbered below its counter. -/
theorem renumber_stored (hsound : e.Sound) (hnumbered : e.Numbered) (hρ : ∀ i < e.barIndex, ρ i = i) :
    e.renumber ρ = { e with barIndex := ρ e.barIndex } := by
  have hwindow (level : PivotLevel) :
      (e.zigzags level).window.map (·.renumber ρ) = (e.zigzags level).window := by
    refine (List.map_congr_left fun s hs => ?_).trans (List.map_id _)
    rw [Sample.renumber, hρ _ (hnumbered level s hs), id]
  have hpivots (level : PivotLevel) :
      (e.zigzags level).pivots.map (·.renumber ρ) = (e.zigzags level).pivots := by
    refine (List.map_congr_left fun p hp => ?_).trans (List.map_id _)
    rw [ConfirmedPivot.renumber, hρ _ ((hsound.fed level).old p hp), id]
  have hconfirmed (level : PivotLevel) :
      (e.confirmed level).map (·.renumber ρ) = e.confirmed level := by
    refine (List.map_congr_left fun p hp => ?_).trans (List.map_id _)
    have hkey : p.key ∈ (e.zigzags level).pivots.map ConfirmedPivot.key :=
      (hsound.mirrors level).keys ▸ List.mem_map_of_mem hp
    obtain ⟨cp, hcp, hkey⟩ := List.mem_map.1 hkey
    have hindex : p.barIndex = cp.barIndex := (congrArg Prod.fst hkey).symm
    rw [Pivot.renumber, hρ _ (hindex ▸ (hsound.fed level).old cp hcp), id]
  simp only [PivotEngine.renumber, ZigZag.renumber, hwindow, hpivots, hconfirmed]

theorem push_barIndex {z : ZigZag P} {s : Sample P} {cp : ConfirmedPivot P}
    (h : (z.push s).2 = some cp) : cp.barIndex = s.barIndex := by
  by_cases htakes : ∃ k, z.Takes s k
  · obtain ⟨k, hk⟩ := htakes
    rw [(ZigZag.push_of_takes hk).2.2] at h
    cases h
    rfl
  · rw [(ZigZag.push_of_not_takes fun k hk => htakes ⟨k, hk⟩).2.2] at h
    cases h

omit [Sub P] [Zero P] in
theorem confirm_barIndex {level : PivotLevel} {confirmed stored : List (Pivot P)}
    {cp : ConfirmedPivot P} {pivot : Pivot P} (h : confirm level confirmed cp = some (stored, pivot)) :
    pivot.barIndex = cp.barIndex := by
  unfold confirm at h
  simp only at h
  split at h
  · split at h
    · cases h
    · cases h
      rfl
  · cases h
    rfl

/-- An answer carries the index of its bar alone. -/
theorem renumber_answer {ρ' : ℕ → ℕ} (h : ρ e.barIndex = ρ' e.barIndex) (bar : Bar P) :
    Answer.renumber ρ (e.onBar bar).2 = Answer.renumber ρ' (e.onBar bar).2 := by
  unfold PivotEngine.onBar
  split
  · exact congrArg (fun i => Except.error (PivotError.nonMonotonic i)) h
  · refine congrArg Except.ok (List.map_congr_left fun new hnew => ?_)
    obtain ⟨level, -, hlevel⟩ := List.mem_filterMap.1 hnew
    obtain ⟨r, hr, rfl⟩ := Option.map_eq_some_iff.1 hlevel
    obtain ⟨cp, hcp, hconfirm⟩ := Option.bind_eq_some_iff.1 hr
    have hindex : r.2.barIndex = e.barIndex := (confirm_barIndex hconfirm).trans (push_barIndex hcp)
    rw [NewPivot.renumber, NewPivot.renumber, Pivot.renumber, Pivot.renumber, hindex, h]

theorem renumber_answers {ρ' : ℕ → ℕ} (h : ∀ i, e.barIndex ≤ i → ρ i = ρ' i) (bars : List (Bar P)) :
    (e.answers bars).map (Answer.renumber ρ) = (e.answers bars).map (Answer.renumber ρ') := by
  induction bars generalizing e with
  | nil => rfl
  | cons bar bars ih =>
    have hrest := ih (e := e.step bar) fun i hi => h i (by
      rw [step_barIndex] at hi
      omega)
    rw [PivotEngine.answers, List.map_cons, List.map_cons, hrest, renumber_answer (h _ le_rfl)]

/-- **A rejected bar** takes an index and does nothing else: the bars after it get the answers that
they would have got without it, one index higher, and so does the tree. -/
theorem rejected_counts (config : PivotConfig) (e : PivotEngine P) (h : PivotEngine.new config = .ok e)
    (before : List (Bar P)) (bar : Bar P) (hrejected : ¬ (run PivotEngine.step e before).Accepts bar)
    (later : List (Bar P)) :
    (run PivotEngine.step e (before ++ [bar])).answers later =
      ((run PivotEngine.step e before).answers later).map (Answer.renumber (· + 1))
    ∧ (run PivotEngine.step e (before ++ bar :: later)).snapshot =
      (run PivotEngine.step e (before ++ later)).snapshot.renumber (makeRoom before.length) := by
  obtain ⟨hnumbered, hzero⟩ := numbered_new h
  obtain ⟨hsound, hnumbered⟩ : (run PivotEngine.step e before).Sound ∧ (run PivotEngine.step e before).Numbered :=
    run_invariant (J := fun e : PivotEngine P => e.Sound ∧ e.Numbered) (K := fun _ => True)
      (fun _ bar hJ _ => ⟨sound_step hJ.1 bar, numbered_step hJ.2 bar⟩) ⟨(sound_new h).1, hnumbered⟩
      fun _ _ => True.intro
  have hindex : (run PivotEngine.step e before).barIndex = before.length := by
    rw [run_barIndex, hzero, Nat.zero_add]
  have hafter : run PivotEngine.step e (before ++ [bar]) = (run PivotEngine.step e before).step bar :=
    run_append _ _ before [bar]
  rw [hafter, run_append _ _ before (bar :: later), run_cons, run_append _ _ before later]
  generalize run PivotEngine.step e before = e at *
  have hroom : ∀ i, e.barIndex ≤ i → makeRoom before.length i = i + 1 :=
    fun i hi => if_neg (not_lt.2 (hindex ▸ hi))
  -- the rejected bar makes room for itself
  have hstep : e.step bar = e.renumber (makeRoom before.length) := by
    rw [step_rejected hrejected,
      renumber_stored (ρ := makeRoom before.length) hsound hnumbered fun i hi => if_pos (hindex ▸ hi),
      hroom _ le_rfl]
  obtain ⟨hanswers, hrun⟩ := answers_renumber (e := e) (ρ := makeRoom before.length)
    (fun i hi => by rw [hroom i hi, hroom (i + 1) (Nat.le_succ_of_le hi)]) later
  rw [hstep, hanswers, hrun]
  exact ⟨renumber_answers hroom later, rfl⟩

end rejected

/-- A bar, an older one, and a high. -/
theorem rejected_moves_index : ∃ e, PivotEngine.new doubling = .ok e
    ∧ ¬ (run PivotEngine.step e [(⟨600, 11, 10, 1⟩ : Bar ℚ)]).Accepts ⟨300, 11, 10, 1⟩
    ∧ (run PivotEngine.step e [(⟨600, 11, 10, 1⟩ : Bar ℚ), ⟨300, 11, 10, 1⟩]).answers [⟨660, 12, 11, 1⟩]
      ≠ (run PivotEngine.step e [(⟨600, 11, 10, 1⟩ : Bar ℚ)]).answers [⟨660, 12, 11, 1⟩] :=
  ⟨_, rfl, by decide +kernel, by decide +kernel⟩

theorem high_one_higher : ∃ e, PivotEngine.new doubling = .ok e
    ∧ (run PivotEngine.step e [(⟨600, 11, 10, 1⟩ : Bar ℚ), ⟨300, 11, 10, 1⟩]).answers [⟨660, 12, 11, 1⟩]
      = ((run PivotEngine.step e [(⟨600, 11, 10, 1⟩ : Bar ℚ)]).answers [⟨660, 12, 11, 1⟩]).map
        (Answer.renumber (· + 1)) :=
  ⟨_, rfl, (rejected_counts doubling _ rfl [⟨600, 11, 10, 1⟩] ⟨300, 11, 10, 1⟩ (by decide +kernel)
    [⟨660, 12, 11, 1⟩]).1⟩

end Qtss.Pivots
