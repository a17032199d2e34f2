import Qtss.Lib.Runs
import Qtss.Pivots.Levels
/-
# The pivot engine (`qtss-pivots/src/engine.rs`, `config.rs`, `qtss-domain/src/v2/pivot.rs`)

| here | there |
| --- | --- |
| `PivotLevel`, `SwingType`, `Pivot`, `PivotTree` | pivot.rs:49, :31, :91, :111; an array over the levels is a function of the level |
| `PivotConfig.validate` | config.rs:43 |
| `PivotEngine.new`, `onBar`, `snapshot` | engine.rs:43, :63, :125 |
| `confirm`          | the body of the loop of `on_bar` for a pushed pivot (:84-119) |
| `buildPivot`, `classifySwing` | engine.rs:148, :161 |
| `Bar`              | the fields of `qtss_domain::v2::bar::Bar` that are read |

The levels run side by side, and `PivotTree` promises that a pivot of one level is on every lower
one. Nothing in `on_bar` looks at another level, so the promise rests on the windows alone:
`nested_iff` says which bars break it.
-/

namespace Qtss.Pivots
open Runs

inductive PivotLevel where
  | l0 | l1 | l2 | l3 | l4
deriving DecidableEq, Repr

def PivotLevel.all : List PivotLevel := [.l0, .l1, .l2, .l3, .l4]

def PivotLevel.asIndex : PivotLevel → ℕ
  | .l0 => 0
  | .l1 => 1
  | .l2 => 2
  | .l3 => 3
  | .l4 => 4

inductive SwingType where
  | hh | lh | hl | ll
deriving DecidableEq, Repr

structure Pivot (P : Type*) where
  barIndex : ℕ
  time : DateTime
  price : P
  kind : PivotKind
  level : PivotLevel
  prominence : P
  volumeAtPivot : ℚ
  swingType : Option SwingType
deriving DecidableEq

/-- "Invariant: `levels[i]` for higher `i` is a subset of `levels[i-1]`." -/
structure PivotTree (P : Type*) where
  levels : PivotLevel → List (Pivot P)

inductive PivotError where
  | invalidConfig (text : String)
  | nonMonotonic (barIndex : ℕ)
deriving DecidableEq

structure PivotConfig where
  lengths : PivotLevel → ℕ

/-- Each level with the next one. -/
def adjacent : List (PivotLevel × PivotLevel) :=
  [(.l0, .l1), (.l1, .l2), (.l2, .l3), (.l3, .l4)]

/-- config.rs:43. -/
def PivotConfig.validate (c : PivotConfig) : Except PivotError Unit :=
  match PivotLevel.all.find? fun i => c.lengths i = 0 with
  | some i => .error (.invalidConfig ("lengths[" ++ toString i.asIndex ++ "] must be >= 1"))
  | none =>
    match adjacent.find? fun (lo, hi) => c.lengths hi ≤ c.lengths lo with
    | some (_, i) => .error (.invalidConfig
        ("lengths must be strictly increasing (level " ++ toString i.asIndex ++ ")"))
    | none => .ok ()

structure Bar (P : Type*) where
  openTime : DateTime
  high : P
  low : P
  volume : ℚ
deriving DecidableEq

structure NewPivot (P : Type*) where
  level : PivotLevel
  pivot : Pivot P
deriving DecidableEq

structure PivotEngine (P : Type*) where
  barIndex : ℕ
  lastTime : Option DateTime
  zigzags : PivotLevel → ZigZag P
  confirmed : PivotLevel → List (Pivot P)

variable {P : Type*}

def PivotEngine.new (config : PivotConfig) : Except PivotError (PivotEngine P) :=
  match config.validate with
  | .error err => .error err
  | .ok () => .ok ⟨0, none, fun level => .withLength (config.lengths level), fun _ => []⟩

def buildPivot (cp : ConfirmedPivot P) (level : PivotLevel) : Pivot P :=
  ⟨cp.barIndex, cp.time, cp.price, cp.kind, level, cp.prominence, cp.volumeAtPivot, none⟩

/-- The bar as the sample of its index. -/
def PivotEngine.sample (e : PivotEngine P) (bar : Bar P) : Sample P :=
  ⟨e.barIndex, bar.openTime, bar.high, bar.low, bar.volume⟩

/-- The bar is not older than the last one. -/
def PivotEngine.Accepts (e : PivotEngine P) (bar : Bar P) : Prop :=
  ∀ prev ∈ e.lastTime, ¬ bar.openTime < prev

instance (e : PivotEngine P) (bar : Bar P) : Decidable (e.Accepts bar) :=
  inferInstanceAs (Decidable (∀ prev ∈ e.lastTime, _))

section engine
variable [LinearOrder P]

/-- engine.rs:161. -/
def classifySwing (confirmed : List (Pivot P)) (new : Pivot P) : Option SwingType :=
  (confirmed.reverse.find? (·.kind = new.kind)).map fun prev =>
    match new.kind with
    | .high => if new.price ≥ prev.price then .hh else .lh
    | .low => if new.price ≤ prev.price then .ll else .hl

/-- engine.rs:98. -/
def keepNew (kind : PivotKind) (new last : P) : Bool :=
  match kind with
  | .high => decide (new ≥ last)
  | .low => decide (new ≤ last)

/-- engine.rs:84-119: the level's pivots with the new one, and the new one; `none` where the loop
says `continue`. -/
def confirm (level : PivotLevel) (confirmed : List (Pivot P)) (cp : ConfirmedPivot P) :
    Option (List (Pivot P) × Pivot P) :=
  let pivot := buildPivot cp level
  match confirmed.getLast?.filter (·.kind = cp.kind) with
  | some last =>
    if !keepNew cp.kind pivot.price last.price then none
    else
      let before := confirmed.dropLast
      let pivot := { pivot with swingType := classifySwing before pivot }
      some (before ++ [pivot], pivot)
  | none =>
    let pivot := { pivot with swingType := classifySwing confirmed pivot }
    some (confirmed ++ [pivot], pivot)

variable [Sub P] [Zero P]

/-- engine.rs:63. -/
def PivotEngine.onBar (e : PivotEngine P) (bar : Bar P) :
    PivotEngine P × Except PivotError (List (NewPivot P)) :=
  let idx := e.barIndex
  if ¬ e.Accepts bar then ({ e with barIndex := idx + 1 }, .error (.nonMonotonic idx))
  else
    let sample := e.sample bar
    let pushed (level : PivotLevel) := (e.zigzags level).push sample
    let recorded (level : PivotLevel) := (pushed level).2.bind (confirm level (e.confirmed level))
    ({ barIndex := idx + 1
       lastTime := some bar.openTime
       zigzags := fun level => (pushed level).1
       confirmed := fun level => ((recorded level).map (·.1)).getD (e.confirmed level) },
      .ok (PivotLevel.all.filterMap fun level => (recorded level).map fun r => ⟨level, r.2⟩))

def PivotEngine.step (e : PivotEngine P) (bar : Bar P) : PivotEngine P := (e.onBar bar).1

end engine

def PivotEngine.snapshot (e : PivotEngine P) : PivotTree P := ⟨e.confirmed⟩

/-! ## The promise of the tree -/

def Pivot.key (p : Pivot P) : ℕ × PivotKind := (p.barIndex, p.kind)

/-- Every pivot of `hi` is on `lo`, at the same bar and of the same kind. -/
def PivotTree.Within (t : PivotTree P) (lo hi : PivotLevel) : Prop :=
  ∀ p ∈ t.levels hi, p.key ∈ (t.levels lo).map Pivot.key

/-- Every pivot of a level is on each lower level. -/
def PivotTree.Nested (t : PivotTree P) : Prop :=
  ∀ lo hi : PivotLevel, lo.asIndex < hi.asIndex → t.Within lo hi

/-- pivot.rs:217: the first pair of levels, of the first three pairs, with a bar of the higher one
missing from the lower one. -/
def PivotTree.checkSubsetInvariant (t : PivotTree P) : Option (PivotLevel × PivotLevel) :=
  [(PivotLevel.l0, PivotLevel.l1), (.l1, .l2), (.l2, .l3)].find? fun (lo, hi) =>
    (t.levels hi).any fun p => decide (p.barIndex ∉ (t.levels lo).map (·.barIndex))

theorem PivotTree.Within.trans {t : PivotTree P} {a b c : PivotLevel} (hab : t.Within a b)
    (hbc : t.Within b c) : t.Within a c := by
  intro p hp
  obtain ⟨q, hq, hkey⟩ := List.mem_map.1 (hbc p hp)
  exact hkey ▸ hab q hq

/-- It is enough to compare each level with the next one. -/
theorem PivotTree.nested_iff_adjacent {t : PivotTree P} :
    t.Nested ↔ ∀ pr ∈ adjacent, t.Within pr.1 pr.2 := by
  have hlt : ∀ pr ∈ adjacent, pr.1.asIndex < pr.2.asIndex := by decide
  refine ⟨fun h pr hpr => h _ _ (hlt pr hpr), fun h lo hi hlohi => ?_⟩
  have h01 : t.Within .l0 .l1 := h (.l0, .l1) (by decide)
  have h12 : t.Within .l1 .l2 := h (.l1, .l2) (by decide)
  have h23 : t.Within .l2 .l3 := h (.l2, .l3) (by decide)
  have h34 : t.Within .l3 .l4 := h (.l3, .l4) (by decide)
  have h02 := h01.trans h12
  have h13 := h12.trans h23
  have h24 := h23.trans h34
  have h03 := h02.trans h23
  have h14 := h13.trans h34
  have h04 := h03.trans h34
  cases lo <;> cases hi <;> first | assumption | exact absurd hlohi (by decide)

instance (t : PivotTree P) : Decidable t.Nested :=
  decidable_of_iff (∀ pr ∈ adjacent, ∀ p ∈ t.levels pr.2, p.key ∈ (t.levels pr.1).map Pivot.key)
    PivotTree.nested_iff_adjacent.symm

/-- The code's own check finds nothing in a nested tree. -/
theorem PivotTree.Nested.check {t : PivotTree P} (h : t.Nested) : t.checkSubsetInvariant = none := by
  have hpair : ∀ lo hi : PivotLevel, lo.asIndex < hi.asIndex →
      ¬ (t.levels hi).any fun p => decide (p.barIndex ∉ (t.levels lo).map (·.barIndex)) := by
    intro lo hi hlt hany
    obtain ⟨p, hp, hnot⟩ := List.any_eq_true.1 hany
    obtain ⟨q, hq, hkey⟩ := List.mem_map.1 (h lo hi hlt p hp)
    exact of_decide_eq_true hnot (List.mem_map.2 ⟨q, hq, congrArg Prod.fst hkey⟩)
  rw [checkSubsetInvariant, List.find?_eq_none]
  simp only [List.mem_cons, List.not_mem_nil, or_false]
  rintro ⟨lo, hi⟩ (h | h | h) <;> cases h <;> exact hpair _ _ (by decide)

/-! ## The confirmed pivots are the detector's -/

def ConfirmedPivot.mark (p : ConfirmedPivot P) : (ℕ × PivotKind) × P := (p.key, p.price)

def Pivot.mark (p : Pivot P) : (ℕ × PivotKind) × P := (p.key, p.price)

/-- The level stores the pivots of its detector. -/
def Mirrors (confirmed : List (Pivot P)) (z : ZigZag P) : Prop :=
  confirmed.map Pivot.mark = z.pivots.map ConfirmedPivot.mark

theorem Mirrors.keys {confirmed : List (Pivot P)} {z : ZigZag P} (h : Mirrors confirmed z) :
    confirmed.map Pivot.key = z.pivots.map ConfirmedPivot.key := by
  have hfst := congrArg (List.map Prod.fst) h
  rwa [List.map_map, List.map_map] at hfst

section run
variable [LinearOrder P] {z : ZigZag P} {i : ℕ} {s : Sample P}

/-- The check of `on_bar` before it replaces a pivot passes: the detector replaces its head only
with a more extreme one. -/
theorem keepNew_of_moreExtreme {k : PivotKind} {new last : P} (h : moreExtreme k new last) :
    keepNew k new last = true := by
  cases k <;> simp only [keepNew, moreExtreme, decide_eq_true_eq] at h ⊢ <;> exact h.le

/-- A pivot that the detector does not replace. -/
theorem confirm_append {level : PivotLevel} {confirmed : List (Pivot P)} {cp : ConfirmedPivot P}
    (h : ∀ last ∈ confirmed.getLast?, last.kind ≠ cp.kind) :
    ∃ pivot : Pivot P, pivot.mark = cp.mark
      ∧ confirm level confirmed cp = some (confirmed ++ [pivot], pivot) := by
  have hnone : confirmed.getLast?.filter (·.kind = cp.kind) = none := by
    rw [Option.filter_eq_none_iff]
    exact fun last hlast => by simpa using h last hlast
  refine ⟨{ buildPivot cp level with swingType := classifySwing confirmed (buildPivot cp level) },
    rfl, ?_⟩
  rw [confirm, hnone]

/-- A pivot that it replaces with a more extreme one. -/
theorem confirm_replace {level : PivotLevel} {before : List (Pivot P)} {last : Pivot P}
    {cp : ConfirmedPivot P} (hkind : last.kind = cp.kind)
    (hmore : moreExtreme cp.kind cp.price last.price) :
    ∃ pivot : Pivot P, pivot.mark = cp.mark
      ∧ confirm level (before ++ [last]) cp = some (before ++ [pivot], pivot) := by
  have hlast : (before ++ [last]).getLast?.filter (·.kind = cp.kind) = some last := by
    rw [List.getLast?_concat, Option.filter_some, if_pos (decide_eq_true hkind)]
  refine ⟨{ buildPivot cp level with swingType := classifySwing before (buildPivot cp level) },
    rfl, ?_⟩
  have hkeep : keepNew cp.kind (buildPivot cp level).price last.price = true :=
    keepNew_of_moreExtreme hmore
  rw [confirm, hlast]
  simp only [hkeep, Bool.not_true, Bool.false_eq_true, if_false, List.dropLast_concat]

variable [Sub P] [Zero P]

/-- The pivots of the level after a pushed one. -/
theorem mirrors_confirm {confirmed : List (Pivot P)} (h : z.Fed i) (hm : Mirrors confirmed z)
    {k : PivotKind} (hk : z.Takes s k) (level : PivotLevel) :
    ∃ stored pivot, confirm level confirmed (z.pivotOf s k) = some (stored, pivot)
      ∧ stored.map Pivot.mark = (z.base k ++ [z.pivotOf s k]).map ConfirmedPivot.mark := by
  unfold Mirrors at hm
  rcases h.base_cases k with ⟨older, A, hz, hkind, hd, hbase⟩ | ⟨hother, hbase⟩
  · have hA : A ∈ z.pivots.getLast? := by rw [hz, List.getLast?_concat]; rfl
    have hmore : moreExtreme k (s.value k) A.price := by
      by_contra hnot
      exact hk.2 ⟨hd, A, hA, Bool.eq_false_iff.2 hnot⟩
    rw [hz, List.map_append, List.map_eq_append_iff] at hm
    obtain ⟨before, tail, rfl, hbefore, htail⟩ := hm
    obtain ⟨last, rfl, hlast⟩ := List.map_eq_singleton_iff.1 htail
    have hlastkind : last.kind = A.kind := congrArg (·.1.2) hlast
    have hprice : last.price = A.price := congrArg Prod.snd hlast
    obtain ⟨pivot, hmark, hconfirm⟩ : ∃ pivot : Pivot P, pivot.mark = (z.pivotOf s k).mark ∧
        confirm level (before ++ [last]) (z.pivotOf s k) = some (before ++ [pivot], pivot) :=
      confirm_replace (hlastkind.trans hkind) (hprice ▸ hmore)
    refine ⟨_, _, hconfirm, ?_⟩
    rw [hbase, List.map_append, List.map_append, hbefore, List.map_singleton, List.map_singleton,
      hmark]
  · have hother' : ∀ last ∈ confirmed.getLast?, last.kind ≠ (z.pivotOf s k).kind := by
      intro last hlast hkind
      have hmarks := congrArg List.getLast? hm
      rw [List.getLast?_map, List.getLast?_map, hlast] at hmarks
      obtain ⟨A, hA, hmark⟩ := Option.map_eq_some_iff.1 hmarks.symm
      have hAkind : A.kind = last.kind := congrArg (·.1.2) hmark
      exact hother A hA (hAkind.trans hkind)
    obtain ⟨pivot, hmark, hconfirm⟩ : ∃ pivot : Pivot P, pivot.mark = (z.pivotOf s k).mark ∧
        confirm level confirmed (z.pivotOf s k) = some (confirmed ++ [pivot], pivot) :=
      confirm_append hother'
    refine ⟨_, _, hconfirm, ?_⟩
    rw [hbase, List.map_append, List.map_append, hm, List.map_singleton, List.map_singleton, hmark]

/-- **One bar**: the level goes on to store its detector's pivots. -/
theorem mirrors_push {confirmed : List (Pivot P)} (h : z.Fed i) (hm : Mirrors confirmed z)
    (level : PivotLevel) :
    Mirrors ((((z.push s).2.bind (confirm level confirmed)).map (·.1)).getD confirmed)
      (z.push s).1 := by
  unfold Mirrors
  by_cases htakes : ∃ k, z.Takes s k
  · obtain ⟨k, hk⟩ := htakes
    obtain ⟨hpivots, -, hnew⟩ := ZigZag.push_of_takes hk
    obtain ⟨stored, pivot, hconfirm, hstored⟩ := mirrors_confirm h hm hk level
    rw [hnew, Option.bind_some, hconfirm, hpivots]
    exact hstored
  · have hno : ∀ k, ¬ z.Takes s k := fun k hk => htakes ⟨k, hk⟩
    obtain ⟨hpivots, -, hnone⟩ := ZigZag.push_of_not_takes hno
    rw [hnone, hpivots]
    exact hm

/-! ## The promise over a run -/

/-- The state of the engine between bars. -/
structure PivotEngine.Sound (e : PivotEngine P) : Prop where
  fed : ∀ level, (e.zigzags level).Fed e.barIndex
  mirrors : ∀ level, Mirrors (e.confirmed level) (e.zigzags level)
  wider : ∀ pr ∈ adjacent, (e.zigzags pr.1).Wider (e.zigzags pr.2)

/-- An accepted bar keeps the pivots of each level among those of the level below. -/
def NestedStep (e : PivotEngine P) (bar : Bar P) : Prop :=
  e.Accepts bar → ∀ pr ∈ adjacent, (e.zigzags pr.1).Keeps (e.zigzags pr.2) (e.sample bar)

variable {e : PivotEngine P} {bar : Bar P}

omit [LinearOrder P] [Sub P] [Zero P] in
/-- An accepted configuration has lengths that increase from level to level. -/
theorem lengths_lt {config : PivotConfig} (h : config.validate = .ok ()) :
    ∀ pr ∈ adjacent, config.lengths pr.1 < config.lengths pr.2 := by
  intro pr hpr
  unfold PivotConfig.validate at h
  split at h
  · cases h
  · split at h
    · cases h
    · rename_i hnone
      simpa using List.find?_eq_none.1 hnone pr hpr

omit [LinearOrder P] [Sub P] [Zero P] in
theorem sound_new {config : PivotConfig} (h : PivotEngine.new config = .ok e) :
    e.Sound ∧ e.snapshot.Nested := by
  unfold PivotEngine.new at h
  split at h
  · cases h
  · rename_i hvalid
    cases h
    refine ⟨⟨fun _ => fed_withLength _ _, fun _ => rfl, fun pr hpr => ?_⟩, fun lo hi _ p hp => ?_⟩
    · exact wider_withLength (lengths_lt hvalid pr hpr).le
    · exact absurd hp List.not_mem_nil

theorem step_rejected (h : ¬ e.Accepts bar) : e.step bar = { e with barIndex := e.barIndex + 1 } := by
  rw [PivotEngine.step, PivotEngine.onBar, if_pos h]

/-- An accepted bar goes to every detector. -/
theorem step_accepted (h : e.Accepts bar) :
    (e.step bar).barIndex = e.barIndex + 1
    ∧ (∀ level, (e.step bar).zigzags level = ((e.zigzags level).push (e.sample bar)).1)
    ∧ ∀ level, (e.step bar).confirmed level =
        ((((e.zigzags level).push (e.sample bar)).2.bind (confirm level (e.confirmed level))).map
          (·.1)).getD (e.confirmed level) := by
  rw [PivotEngine.step, PivotEngine.onBar, if_neg (not_not_intro h)]
  exact ⟨rfl, fun _ => rfl, fun _ => rfl⟩

/-- **One bar** keeps the engine sound. -/
theorem sound_step (h : e.Sound) (bar : Bar P) : (e.step bar).Sound := by
  by_cases hacc : e.Accepts bar
  · obtain ⟨hindex, hzigzags, hconfirmed⟩ := step_accepted hacc
    refine ⟨fun level => ?_, fun level => ?_, fun pr hpr => ?_⟩
    · rw [hindex, hzigzags]
      exact ZigZag.fed_push (h.fed level) rfl
    · rw [hzigzags, hconfirmed]
      exact mirrors_push (h.fed level) (h.mirrors level) level
    · rw [hzigzags, hzigzags]
      exact ZigZag.wider_push (h.wider pr hpr) (h.fed _) (h.fed _) rfl
  · rw [step_rejected hacc]
    exact ⟨fun level => (h.fed level).mono (Nat.le_succ _), h.mirrors, h.wider⟩

omit [LinearOrder P] [Sub P] [Zero P] in
/-- The tree is nested when each detector covers the next one. -/
theorem PivotEngine.Sound.nested_iff_covers (h : e.Sound) :
    e.snapshot.Nested ↔ ∀ pr ∈ adjacent, (e.zigzags pr.1).Covers (e.zigzags pr.2) := by
  have hwithin : ∀ lo hi, e.snapshot.Within lo hi ↔ (e.zigzags lo).Covers (e.zigzags hi) := by
    intro lo hi
    calc e.snapshot.Within lo hi
      _ ↔ ∀ key ∈ (e.confirmed hi).map Pivot.key, key ∈ (e.confirmed lo).map Pivot.key :=
          List.forall_mem_map.symm
      _ ↔ (e.zigzags lo).Covers (e.zigzags hi) := by
          rw [(h.mirrors hi).keys, (h.mirrors lo).keys, List.forall_mem_map]
          simp only [List.mem_map, ZigZag.Covers]
  rw [PivotTree.nested_iff_adjacent]
  exact forall₂_congr fun pr _ => hwithin pr.1 pr.2

/-- **One bar** keeps the promise exactly when it is such a bar. -/
theorem nested_step (h : e.Sound) (hn : e.snapshot.Nested) (bar : Bar P) :
    (e.step bar).snapshot.Nested ↔ NestedStep e bar := by
  by_cases hacc : e.Accepts bar
  · obtain ⟨-, hzigzags, -⟩ := step_accepted hacc
    rw [(sound_step h bar).nested_iff_covers]
    have hkeeps : ∀ pr ∈ adjacent, ((e.step bar).zigzags pr.1).Covers ((e.step bar).zigzags pr.2) ↔
        (e.zigzags pr.1).Keeps (e.zigzags pr.2) (e.sample bar) := by
      intro pr hpr
      rw [hzigzags, hzigzags]
      exact ZigZag.covers_push_iff (h.wider pr hpr) (h.nested_iff_covers.1 hn pr hpr) (h.fed _) (h.fed _) rfl
    rw [forall₂_congr hkeeps]
    exact ⟨fun hall _ => hall, fun hstep => hstep hacc⟩
  · rw [step_rejected hacc]
    exact ⟨fun _ h => absurd h hacc, fun _ => hn⟩

/-- **The pivot tree**: its levels are nested after every bar exactly when every accepted bar keeps
the pivots of each level among those of the level below. -/
theorem nested_iff (config : PivotConfig) (e : PivotEngine P) (h : PivotEngine.new config = .ok e)
    (bars : List (Bar P)) :
    AllStates PivotEngine.step (fun e => e.snapshot.Nested) e bars ↔
      AllSteps PivotEngine.step NestedStep e bars :=
  allStates_iff_allSteps (J := fun e : PivotEngine P => e.Sound ∧ e.snapshot.Nested)
    (fun _ hJ => hJ.2)
    (fun _ bar hJ _ hstep => ⟨sound_step hJ.1 bar, (nested_step hJ.1 hJ.2 bar).2 hstep⟩)
    (fun _ bar hJ _ hstep hn => hstep ((nested_step hJ.1 hJ.2 bar).1 hn))
    (sound_new h) fun bar (_ : bar ∈ bars) => True.intro

end run

/-- The lengths of the repository's own test of the promise, with a fifth level. -/
def doubling : PivotConfig where
  lengths
    | .l0 => 2
    | .l1 => 4
    | .l2 => 8
    | .l3 => 16
    | .l4 => 32

def risingBars : List (Bar ℚ) :=
  [⟨0, 11, 10, 1⟩, ⟨60, 12, 11, 1⟩, ⟨120, 13, 12, 1⟩, ⟨180, 14, 13, 1⟩, ⟨240, 15, 14, 1⟩]

theorem rising_nested : ∃ e, PivotEngine.new doubling = .ok e
    ∧ AllSteps PivotEngine.step NestedStep e risingBars :=
  ⟨_, rfl, (nested_iff doubling _ rfl risingBars).1 (by decide +kernel)⟩

/-- The last bar is the high of its last four, and both the high and the low of its last two. -/
def expandingBars : List (Bar ℚ) :=
  [⟨0, 60, 50, 1⟩, ⟨60, 90, 80, 1⟩, ⟨120, 90, 80, 1⟩, ⟨180, 95, 70, 1⟩]

theorem high_missing_below : (∀ b ∈ expandingBars, b.low ≤ b.high)
    ∧ expandingBars.Pairwise (·.openTime ≤ ·.openTime)
    ∧ ∃ e, PivotEngine.new doubling = .ok e
      ∧ ¬ AllStates PivotEngine.step (fun e => e.snapshot.Nested) e expandingBars
      ∧ (run PivotEngine.step e expandingBars).snapshot.checkSubsetInvariant = some (.l0, .l1) :=
  ⟨by decide +kernel, by decide +kernel, _, rfl, by decide +kernel, by decide +kernel⟩

end Qtss.Pivots
