import Mathlib.Data.List.MinMax
import Mathlib.Order.Bounds.Basic
import Qtss.Lib.Places
import Qtss.Lib.Runs
import Qtss.Risk.TickDispatcher
/-
# The stop ratchet (`qtss-risk/src/ratchet.rs`)

| here | there |
| --- | --- |
| `RatchetConfig`     | ratchet.rs:38 |
| `ScaleContext`, `unrealisedR` | scale_manager.rs:72, :81; the three fields that a policy reads |
| `RatchetPolicy`     | the trait (:62): a kind and `propose` |
| `BreakevenPolicy`, `TrailingAtrPolicy`, `ChandelierPolicy` | the three implementations (:67-112) |
| `tightenOnly`, `tighterThan` | :157, :166 |
| `keepBest`, `evaluate` | the loop of `RatchetRegistry::evaluate` (:131) and the function |

`f64` and `Decimal` are exact rationals but for `f64_to_decimal`, which rounds to eight places. The loop keeps the
first of the tightest proposals, so the stop does not depend on the order of the policies; the kind does.
-/

namespace Qtss.Risk
open Places Runs

structure RatchetConfig where
  enabled : Bool
  breakevenTriggerR : ℚ
  breakevenOffsetPct : ℚ
  trailingAtrMult : ℚ
  chandelierAtrMult : ℚ
  chandelierTriggerR : ℚ
deriving DecidableEq

def RatchetConfig.default : RatchetConfig where
  enabled := true
  breakevenTriggerR := 1
  breakevenOffsetPct := 5 / 10000
  trailingAtrMult := 2
  chandelierAtrMult := 3
  chandelierTriggerR := 2

structure ScaleContext where
  atr : Option ℚ
  initialRiskPerUnit : Option ℚ
  bestPrice : Option ℚ
deriving DecidableEq

/-- The open profit in multiples of the initial risk. -/
def unrealisedR (state : LivePositionState) (ctx : ScaleContext) : Option ℚ := do
  let mark ← state.lastMark
  let risk ← ctx.initialRiskPerUnit
  if risk ≤ 0 then none
  else
    let diff := match state.side with
      | .buy => mark - state.entryAvg
      | .sell => state.entryAvg - mark
    some (diff / risk)

/-! ## Policies -/

structure RatchetPolicy where
  kind : RatchetKind
  propose : LivePositionState → ScaleContext → RatchetConfig → Option ℚ

def BreakevenPolicy : RatchetPolicy where
  kind := .breakeven
  propose state ctx cfg := do
    let r ← unrealisedR state ctx
    if r < cfg.breakevenTriggerR then none
    else
      let offset := toPlaces 8 (state.entryAvg * cfg.breakevenOffsetPct)
      some (match state.side with
        | .buy => state.entryAvg + offset
        | .sell => state.entryAvg - offset)

/-- A stop `atr` times a multiple behind a price. -/
def behind (side : PositionSide) (price atr mult : ℚ) : Option ℚ :=
  let dist := toPlaces 8 (atr * mult)
  if dist ≤ 0 then none
  else some (match side with
    | .buy => price - dist
    | .sell => price + dist)

def TrailingAtrPolicy : RatchetPolicy where
  kind := .trailing
  propose state ctx cfg := do
    let atr ← ctx.atr
    let mark ← state.lastMark
    behind state.side mark atr cfg.trailingAtrMult

def ChandelierPolicy : RatchetPolicy where
  kind := .chandelier
  propose state ctx cfg := do
    let r ← unrealisedR state ctx
    if r < cfg.chandelierTriggerR then none
    else
      let atr ← ctx.atr
      let best ← ctx.bestPrice
      behind state.side best atr cfg.chandelierAtrMult

abbrev RatchetRegistry := List RatchetPolicy

namespace RatchetRegistry

def withDefaults : RatchetRegistry := [BreakevenPolicy, TrailingAtrPolicy, ChandelierPolicy]

end RatchetRegistry

/-! ## The tightest proposal -/

def tighterThan (side : PositionSide) (a b : ℚ) : Bool :=
  match side with
  | .buy => decide (b < a)
  | .sell => decide (a < b)

def tightenOnly (state : LivePositionState) (newSl : ℚ) : Option ℚ := do
  let current ← state.currentSl
  if tighterThan state.side newSl current then some newSl else none

section registry
variable (state : LivePositionState) (ctx : ScaleContext) (cfg : RatchetConfig)

/-- One policy in the loop. -/
def keepBest (best : Option (RatchetKind × ℚ)) (p : RatchetPolicy) : Option (RatchetKind × ℚ) :=
  match p.propose state ctx cfg with
  | none => best
  | some candidate =>
    match tightenOnly state candidate with
    | none => best
    | some accepted =>
      match best with
      | none => some (p.kind, accepted)
      | some (k, cur) =>
        if tighterThan state.side accepted cur then some (p.kind, accepted) else some (k, cur)

/-- ratchet.rs:131. -/
def RatchetRegistry.evaluate (policies : RatchetRegistry) : RatchetDecision :=
  if !cfg.enabled then ⟨.none, none⟩
  else
    match policies.foldl (keepBest state ctx cfg) none with
    | some (k, sl) => ⟨k, some sl⟩
    | none => ⟨.none, none⟩

/-- The proposals of all policies, those that do not tighten included. -/
def proposals (policies : RatchetRegistry) : List ℚ := policies.filterMap (·.propose state ctx cfg)

/-- What a policy enters the comparison with. -/
def accepted (p : RatchetPolicy) : Option (RatchetKind × ℚ) :=
  ((p.propose state ctx cfg).bind (tightenOnly state)).map (p.kind, ·)

end registry

/-- The greatest of the proposals for a long, the least for a short. -/
def IsTightest (side : PositionSide) (proposals : List ℚ) (sl : ℚ) : Prop :=
  match side with
  | .buy => IsGreatest {x | x ∈ proposals} sl
  | .sell => IsLeast {x | x ∈ proposals} sl

/-- Stops in the order in which they tighten. -/
def firmness (side : PositionSide) (sl : ℚ) : ℚ :=
  match side with
  | .buy => sl
  | .sell => -sl

theorem firmness_injective (side : PositionSide) : Function.Injective (firmness side) := by
  intro a b h
  cases side with
  | buy => exact h
  | sell => exact neg_injective h

theorem tighterThan_iff {side : PositionSide} {a b : ℚ} :
    tighterThan side a b = true ↔ firmness side b < firmness side a := by
  cases side with
  | buy => simp [tighterThan, firmness]
  | sell => simp [tighterThan, firmness]

theorem isTightest_iff {side : PositionSide} {l : List ℚ} {sl : ℚ} :
    IsTightest side l sl ↔ sl ∈ l ∧ ∀ x ∈ l, firmness side x ≤ firmness side sl := by
  cases side with
  | buy => rfl
  | sell => simp [IsTightest, firmness, IsLeast, lowerBounds]

/-- The value at a maximum of `k ∘ g` is the greatest value of `g` under `k`. -/
theorem map_argmax_eq_some_iff {α β γ : Type*} [LinearOrder γ] {g : α → β} {k : β → γ}
    (hk : Function.Injective k) (l : List α) (b : β) :
    (l.argmax fun a => k (g a)).map g = some b ↔ b ∈ l.map g ∧ ∀ x ∈ l.map g, k x ≤ k b := by
  constructor
  · intro h
    obtain ⟨m, hm, rfl⟩ := Option.map_eq_some_iff.1 h
    refine ⟨List.mem_map_of_mem (List.argmax_mem hm), ?_⟩
    intro x hx
    obtain ⟨a, ha, rfl⟩ := List.mem_map.1 hx
    exact List.le_of_mem_argmax (f := fun a => k (g a)) ha hm
  · rintro ⟨hb, hmax⟩
    obtain ⟨a, ha, rfl⟩ := List.mem_map.1 hb
    cases hm : l.argmax fun a => k (g a) with
    | none =>
      rw [List.argmax_eq_none.1 hm] at ha
      cases ha
    | some m =>
      have hle := hmax (g m) (List.mem_map_of_mem (List.argmax_mem hm))
      have hge := List.le_of_mem_argmax (f := fun a => k (g a)) ha hm
      rw [Option.map_some, hk (le_antisymm hle hge)]

section spec
variable {state : LivePositionState} {ctx : ScaleContext} {cfg : RatchetConfig}
  {policies : RatchetRegistry} {sl : ℚ}

theorem tightenOnly_eq_some_iff {x : ℚ} : tightenOnly state x = some sl ↔
    ∃ current, state.currentSl = some current ∧ tighterThan state.side sl current = true ∧ x = sl := by
  unfold tightenOnly
  cases state.currentSl with
  | none => simp
  | some current =>
    by_cases htight : tighterThan state.side x current = true
    · simp only [Option.bind_eq_bind, Option.bind_some, htight, if_true, Option.some.injEq, exists_eq_left']
      constructor
      · rintro rfl
        exact ⟨htight, rfl⟩
      · exact And.right
    · simp only [Option.bind_eq_bind, Option.bind_some, htight, Bool.false_eq_true, if_false, Option.some.injEq,
        exists_eq_left', false_iff, reduceCtorEq]
      rintro ⟨hsl, rfl⟩
      exact htight hsl

/-- One policy of the loop is one step of an argmax. -/
theorem keepBest_eq (best : Option (RatchetKind × ℚ)) (p : RatchetPolicy) :
    keepBest state ctx cfg best p = match accepted state ctx cfg p with
      | none => best
      | some c => List.argAux (fun b c => firmness state.side c.2 < firmness state.side b.2) best c := by
  unfold keepBest accepted
  cases p.propose state ctx cfg with
  | none => rfl
  | some candidate =>
    simp only [Option.bind_some]
    cases tightenOnly state candidate with
    | none => rfl
    | some sl =>
      cases best with
      | none => rfl
      | some b => simp only [Option.map_some, List.argAux, tighterThan_iff]

theorem fold_eq_argmax : policies.foldl (keepBest state ctx cfg) none =
    (policies.filterMap (accepted state ctx cfg)).argmax fun c => firmness state.side c.2 := by
  rw [List.argmax, List.foldl_filterMap]
  congr 1
  funext best p
  rw [keepBest_eq]
  cases accepted state ctx cfg p with
  | none => rfl
  | some c => rfl

theorem newSl_eq (henabled : cfg.enabled = true) : (policies.evaluate state ctx cfg).newSl =
    ((policies.filterMap (accepted state ctx cfg)).argmax fun c => firmness state.side c.2).map (·.2) := by
  unfold RatchetRegistry.evaluate
  rw [fold_eq_argmax]
  simp only [henabled, Bool.not_true, Bool.false_eq_true, if_false]
  cases (policies.filterMap (accepted state ctx cfg)).argmax fun c => firmness state.side c.2 with
  | none => rfl
  | some c => rfl

theorem mem_accepted_iff : sl ∈ (policies.filterMap (accepted state ctx cfg)).map (·.2) ↔
    ∃ current, state.currentSl = some current ∧ tighterThan state.side sl current = true ∧
      sl ∈ proposals state ctx cfg policies := by
  simp only [List.mem_map, List.mem_filterMap, accepted, proposals, Option.map_eq_some_iff,
    Option.bind_eq_some_iff, tightenOnly_eq_some_iff]
  constructor
  · rintro ⟨_, ⟨p, hp, _, ⟨x, hx, current, hcurrent, htight, rfl⟩, rfl⟩, rfl⟩
    exact ⟨current, hcurrent, htight, p, hp, hx⟩
  · rintro ⟨current, hcurrent, htight, p, hp, hx⟩
    exact ⟨_, ⟨p, hp, sl, ⟨sl, hx, current, hcurrent, htight, rfl⟩, rfl⟩, rfl⟩

/-- A stop is returned when it tightens the present one and is the tightest of all proposals. -/
theorem newSl_eq_some_iff : (policies.evaluate state ctx cfg).newSl = some sl ↔
    cfg.enabled = true ∧ ∃ current, state.currentSl = some current ∧
      tighterThan state.side sl current = true ∧
      IsTightest state.side (proposals state ctx cfg policies) sl := by
  by_cases henabled : cfg.enabled = true
  · rw [newSl_eq henabled, map_argmax_eq_some_iff (firmness_injective state.side), isTightest_iff]
    simp only [mem_accepted_iff, henabled, true_and]
    constructor
    · rintro ⟨⟨current, hcurrent, htight, hsl⟩, hmax⟩
      refine ⟨current, hcurrent, htight, hsl, fun x hx => ?_⟩
      -- a proposal that is not accepted stays behind the present stop
      by_cases hx' : tighterThan state.side x current = true
      · exact hmax x ⟨current, hcurrent, hx', hx⟩
      · rw [tighterThan_iff, not_lt] at hx'
        exact hx'.trans (tighterThan_iff.1 htight).le
    · rintro ⟨current, hcurrent, htight, hsl, hmax⟩
      exact ⟨⟨current, hcurrent, htight, hsl⟩, fun x ⟨_, _, _, hx⟩ => hmax x hx⟩
  · simp [RatchetRegistry.evaluate, henabled]

theorem newSl_isSome_iff (henabled : cfg.enabled = true) :
    (policies.evaluate state ctx cfg).newSl.isSome = true ↔
      ∃ current, state.currentSl = some current ∧
        ∃ x ∈ proposals state ctx cfg policies, tighterThan state.side x current = true := by
  constructor
  · intro h
    obtain ⟨sl, hsl⟩ := Option.isSome_iff_exists.1 h
    obtain ⟨-, current, hcurrent, htight, hbest⟩ := newSl_eq_some_iff.1 hsl
    exact ⟨current, hcurrent, sl, (isTightest_iff.1 hbest).1, htight⟩
  · rintro ⟨current, hcurrent, x, hx, htight⟩
    rw [newSl_eq henabled, Option.isSome_map, Option.isSome_iff_ne_none, ne_eq, List.argmax_eq_none]
    intro hnil
    have hmem := mem_accepted_iff.2 ⟨current, hcurrent, htight, hx⟩
    rw [hnil] at hmem
    cases hmem

/-- The stop does not depend on the order of the policies. -/
theorem newSl_perm {other : RatchetRegistry} (h : other.Perm policies) :
    (other.evaluate state ctx cfg).newSl = (policies.evaluate state ctx cfg).newSl := by
  have hmem : ∀ x, x ∈ proposals state ctx cfg other ↔ x ∈ proposals state ctx cfg policies :=
    fun x => (h.filterMap _).mem_iff
  ext sl
  simp only [newSl_eq_some_iff, isTightest_iff, hmem]

end spec

/-! ## Over a run of ticks -/

/-- What a tick finds: the position as it is by then, its side and its stop apart, and the indicators
and the configuration of the moment. -/
structure RatchetTick where
  seen : LivePositionState
  ctx : ScaleContext
  cfg : RatchetConfig

def RatchetTick.state (t : RatchetTick) (s : LivePositionState) : LivePositionState :=
  { t.seen with side := s.side, currentSl := s.currentSl }

/-- The stop that a tick returns. -/
def returned (policies : RatchetRegistry) (s : LivePositionState) (t : RatchetTick) : Option ℚ :=
  (policies.evaluate (t.state s) t.ctx t.cfg).newSl

/-- A tick whose stop is applied. -/
def tickStep (policies : RatchetRegistry) (s : LivePositionState) (t : RatchetTick) : LivePositionState :=
  match returned policies s t with
  | none => t.state s
  | some sl => { t.state s with currentSl := some sl }

/-- The stops that the ticks return, in turn. -/
def applied (policies : RatchetRegistry) (s : LivePositionState) : List RatchetTick → List ℚ
  | [] => []
  | t :: ts => (returned policies s t).toList ++ applied policies (tickStep policies s t) ts

/-- The stops that the position has had, the present one last. -/
def history (policies : RatchetRegistry) (s : LivePositionState) (ts : List RatchetTick) : List ℚ :=
  s.currentSl.toList ++ applied policies s ts

/-- No stop is lost and none is moved back. -/
def NotLooser (side : PositionSide) (before after : Option ℚ) : Prop :=
  after.isSome = before.isSome ∧ ∀ a ∈ before, ∀ b ∈ after, tighterThan side a b = false

section run
variable {policies : RatchetRegistry} {s : LivePositionState} {t : RatchetTick} {sl : ℚ}

theorem returned_some (h : returned policies s t = some sl) :
    ∃ current, s.currentSl = some current ∧ tighterThan s.side sl current = true := by
  obtain ⟨-, current, hcurrent, htight, -⟩ := newSl_eq_some_iff.1 h
  exact ⟨current, hcurrent, htight⟩

theorem tickStep_side : (tickStep policies s t).side = s.side := by
  unfold tickStep
  split
  · rfl
  · rfl

/-- The stop after a tick is the one it returns, or else the one there was. -/
theorem tickStep_currentSl :
    (tickStep policies s t).currentSl = (returned policies s t).or s.currentSl := by
  unfold tickStep
  cases returned policies s t with
  | none => rfl
  | some sl => rfl

theorem tighterThan_trans {side : PositionSide} {a b c : ℚ} (hab : tighterThan side a b = true)
    (hbc : tighterThan side b c = true) : tighterThan side a c = true :=
  tighterThan_iff.2 ((tighterThan_iff.1 hbc).trans (tighterThan_iff.1 hab))

theorem history_cons (ts : List RatchetTick) : history policies s (t :: ts) =
    match returned policies s t with
    | none => history policies (tickStep policies s t) ts
    | some _ => s.currentSl.toList ++ history policies (tickStep policies s t) ts := by
  unfold history
  rw [tickStep_currentSl, applied]
  cases returned policies s t with
  | none => rfl
  | some sl => rfl

/-- The stops of a run go one way only. -/
theorem history_pairwise (ts : List RatchetTick) :
    (history policies s ts).Pairwise fun a b => tighterThan s.side b a = true := by
  induction ts generalizing s with
  | nil => cases hsl : s.currentSl <;> simp [history, applied, hsl]
  | cons t ts ih =>
    have hrest := @ih (tickStep policies s t)
    rw [tickStep_side] at hrest
    rw [history_cons]
    cases hret : returned policies s t with
    | none => exact hrest
    | some sl =>
      obtain ⟨current, hcurrent, htight⟩ := returned_some hret
      have hhead : history policies (tickStep policies s t) ts =
          sl :: applied policies (tickStep policies s t) ts := by
        rw [history, tickStep_currentSl, hret]
        rfl
      rw [hhead] at hrest
      simp only [hhead, hcurrent, Option.toList_some, List.singleton_append]
      refine List.pairwise_cons.2 ⟨?_, hrest⟩
      refine List.forall_mem_cons.2 ⟨htight, fun x hx => ?_⟩
      exact tighterThan_trans ((List.pairwise_cons.1 hrest).1 x hx) htight

theorem run_currentSl (ts : List RatchetTick) :
    (run (tickStep policies) s ts).currentSl = (history policies s ts).getLast? := by
  induction ts generalizing s with
  | nil => cases hsl : s.currentSl <;> simp [history, applied, hsl]
  | cons t ts ih =>
    rw [run_cons, ih, history_cons]
    cases hret : returned policies s t with
    | none => rfl
    | some sl =>
      have hne : history policies (tickStep policies s t) ts ≠ [] := by
        rw [history, tickStep_currentSl, hret]
        simp
      simp only [List.getLast?_append_of_ne_nil _ hne]

theorem notLooser_tickStep {side : PositionSide} {before : Option ℚ} (hside : s.side = side)
    (h : NotLooser side before s.currentSl) : NotLooser side before (tickStep policies s t).currentSl := by
  rw [tickStep_currentSl]
  cases hret : returned policies s t with
  | none => exact h
  | some sl =>
    obtain ⟨current, hcurrent, htight⟩ := returned_some hret
    rw [hcurrent] at h
    rw [hside] at htight
    refine ⟨h.1, fun a ha b hb => ?_⟩
    obtain rfl := Option.some.inj hb
    have hfirm := h.2 a ha current rfl
    rw [← Bool.not_eq_true, tighterThan_iff, not_lt] at hfirm ⊢
    exact hfirm.trans (tighterThan_iff.1 htight).le

theorem never_looser (ts : List RatchetTick) :
    AllStates (tickStep policies) (fun s' => NotLooser s.side s.currentSl s'.currentSl) s ts := by
  have hinv : AllStates (tickStep policies)
      (fun s' => s'.side = s.side ∧ NotLooser s.side s.currentSl s'.currentSl) s ts := by
    refine allStates_of_step (fun s' t h => ⟨tickStep_side.trans h.1, notLooser_tickStep h.1 h.2⟩) ?_ ts
    refine ⟨rfl, rfl, fun a ha b hb => ?_⟩
    obtain rfl := Option.mem_unique ha hb
    rw [← Bool.not_eq_true, tighterThan_iff]
    exact lt_irrefl _
  exact hinv.imp fun s' h => h.2

end run

/-- **The ratchet**: `evaluate` returns a stop exactly when some proposal tightens the present one,
and then the tightest of all, in whatever order the policies were registered; so over any run of
ticks that applies what it returns, the stops of a position are strictly monotone and the last is
the one in force. -/
theorem ratchet_tightest (policies : RatchetRegistry) (state : LivePositionState) (ctx : ScaleContext)
    (cfg : RatchetConfig) (henabled : cfg.enabled = true) :
    ((policies.evaluate state ctx cfg).newSl.isSome = true ↔
      ∃ current, state.currentSl = some current ∧
        ∃ x ∈ proposals state ctx cfg policies, tighterThan state.side x current = true) ∧
    (∀ sl, (policies.evaluate state ctx cfg).newSl = some sl →
      IsTightest state.side (proposals state ctx cfg policies) sl) ∧
    (∀ other : RatchetRegistry, other.Perm policies →
      (other.evaluate state ctx cfg).newSl = (policies.evaluate state ctx cfg).newSl) ∧
    ∀ ticks, (history policies state ticks).Pairwise (fun a b => tighterThan state.side b a = true) ∧
      (run (tickStep policies) state ticks).currentSl = (history policies state ticks).getLast? ∧
      AllStates (tickStep policies) (fun s => NotLooser state.side state.currentSl s.currentSl) state ticks := by
  refine ⟨newSl_isSome_iff henabled, fun sl h => ?_, fun other h => newSl_perm h, fun ticks => ?_⟩
  · obtain ⟨-, -, -, -, hbest⟩ := newSl_eq_some_iff.1 h
    exact hbest
  · exact ⟨history_pairwise ticks, run_currentSl ticks, never_looser ticks⟩

/-- One unit long from 100. -/
def longFrom100 (mark sl : ℚ) : LivePositionState where
  id := 0
  setupId := none
  mode := .dry
  exchange := "binance"
  segment := .futures
  symbol := "BTCUSDT"
  side := .buy
  leverage := 10
  entryAvg := 100
  qtyFilled := 1
  qtyRemaining := 1
  currentSl := some sl
  tpLadder := []
  liquidationPrice := none
  maintMarginRatio := none
  fundingRateNext := none
  lastMark := some mark
  lastTickAt := none
  openedAt := 0

/-- At a mark of 110 the trailing stop is tighter than the other two. -/
example : RatchetRegistry.withDefaults.evaluate (longFrom100 110 98) ⟨some 2, some 2, some 110⟩ .default =
    ⟨.trailing, some 106⟩ := by decide +kernel

theorem longFrom100_tightens :
    (RatchetRegistry.withDefaults.evaluate (longFrom100 110 98) ⟨some 2, some 2, some 110⟩ .default).newSl.isSome =
      true :=
  (ratchet_tightest .withDefaults (longFrom100 110 98) ⟨some 2, some 2, some 110⟩ .default rfl).1.2
    ⟨98, rfl, 106, by decide +kernel, by decide⟩

end Qtss.Risk
