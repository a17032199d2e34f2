import Mathlib.Algebra.BigOperators.Group.List.Basic
import Mathlib.Algebra.Order.BigOperators.Group.List
import Mathlib.Tactic.Linarith
import Mathlib.Tactic.Ring
import Qtss.Risk.TickDispatcher
/-
# Fills of the take-profit ladder (`qtss-risk/src/tp_engine.rs`)

| here | there |
| --- | --- |
| `tpEvaluate`        | `evaluate` (tp_engine.rs:17), in `TickDispatcher` |
| `recordPartialFill` | `record_partial_fill` (:37): the quantity absorbed, and the position after it |
| `trailLastLeg`      | `trail_last_leg` (:52) |
| `remainingQty`      | `remaining_qty` (:69) |

A fill is clipped to its leg, not to the position, whose quantity stops at zero instead. As long as the legs ask for
no more than the position has left, the two go down together; `no_oversell_iff` says that this is also necessary.
-/

namespace Qtss.Risk
open Runs

/-- tp_engine.rs:37. -/
def recordPartialFill (state : LivePositionState) (legIndex : ℕ) (qty : ℚ) : ℚ × LivePositionState :=
  match state.tpLadder[legIndex]? with
  | none => (0, state)
  | some leg =>
    let remaining := leg.qty - leg.filledQty
    if remaining ≤ 0 ∨ qty ≤ 0 then (0, state)
    else
      let absorbed := if qty > remaining then remaining else qty
      (absorbed, { state with
        tpLadder := state.tpLadder.set legIndex { leg with filledQty := leg.filledQty + absorbed }
        qtyRemaining := if state.qtyRemaining ≥ absorbed then state.qtyRemaining - absorbed else 0 })

/-- A price beyond the mark, on the side of the profit. -/
def beyond (side : PositionSide) (mark dist : ℚ) : ℚ :=
  match side with
  | .buy => mark + dist
  | .sell => mark - dist

/-- "Extend the last TP leg by `atr * mult` when the mark has passed it." -/
def trailLastLeg (state : LivePositionState) (atr mult : ℚ) : Option ℚ × LivePositionState :=
  if atr ≤ 0 ∨ mult ≤ 0 then (none, state)
  else
    match state.lastMark, state.tpLadder.getLast? with
    | some mark, some leg =>
      if !crossed state.side mark leg.price then (none, state)
      else
        let newPrice := beyond state.side mark (atr * mult)
        (some newPrice, { state with tpLadder := state.tpLadder.dropLast ++ [{ leg with price := newPrice }] })
    | _, _ => (none, state)

/-- What a leg still asks for. -/
def TpLeg.left (leg : TpLeg) : ℚ :=
  let r := leg.qty - leg.filledQty
  if r > 0 then r else 0

def remainingQty (state : LivePositionState) : ℚ := state.tpLadder.foldl (fun acc leg => acc + leg.left) 0

/-! ## What the calls do -/

section calls
variable {s : LivePositionState} {i : ℕ} {qty atr mult : ℚ}

theorem TpLeg.left_nonneg (leg : TpLeg) : 0 ≤ leg.left := by
  simp only [TpLeg.left]
  split
  · exact le_of_lt ‹_›
  · exact le_refl 0

theorem remainingQty_eq (s : LivePositionState) : remainingQty s = (s.tpLadder.map (·.left)).sum := by
  rw [remainingQty, List.sum_eq_foldl, List.foldl_map]

/-- A fill is refused, or takes a positive part of what its leg has left. -/
theorem recordPartialFill_cases (s : LivePositionState) (i : ℕ) (qty : ℚ) :
    recordPartialFill s i qty = (0, s) ∨
      ∃ leg x, s.tpLadder[i]? = some leg ∧ 0 < x ∧ x ≤ leg.qty - leg.filledQty ∧
        recordPartialFill s i qty = (x, { s with
          tpLadder := s.tpLadder.set i { leg with filledQty := leg.filledQty + x }
          qtyRemaining := if s.qtyRemaining ≥ x then s.qtyRemaining - x else 0 }) := by
  unfold recordPartialFill
  cases hleg : s.tpLadder[i]? with
  | none => exact .inl rfl
  | some leg =>
    by_cases hno : leg.qty - leg.filledQty ≤ 0 ∨ qty ≤ 0
    · exact .inl (if_pos hno)
    · right
      refine ⟨leg, if qty > leg.qty - leg.filledQty then leg.qty - leg.filledQty else qty, rfl, ?_, ?_, if_neg hno⟩
      · push Not at hno
        split
        · exact hno.1
        · exact hno.2
      · split
        · exact le_refl _
        · exact not_lt.1 ‹_›

/-- Only the price of the last leg changes. -/
theorem trailLastLeg_cases (s : LivePositionState) (atr mult : ℚ) :
    (trailLastLeg s atr mult).2 = s ∨
      ∃ legs leg price, s.tpLadder = legs ++ [leg] ∧
        (trailLastLeg s atr mult).2 = { s with tpLadder := legs ++ [{ leg with price := price }] } := by
  unfold trailLastLeg
  split_ifs with hno
  · exact .inl rfl
  · split
    · rename_i mark leg _ hleg
      split_ifs with hcrossed
      · exact .inl rfl
      · obtain ⟨legs, hlegs⟩ := List.getLast?_eq_some_iff.1 hleg
        exact .inr ⟨legs, leg, beyond s.side mark (atr * mult), hlegs, by simp only [hlegs, List.dropLast_concat]⟩
    · exact .inl rfl

end calls

/-! ## The triggers of one tick -/

/-- What a leg contributes to the triggers. -/
def triggered (side : PositionSide) (mark : ℚ) (leg : TpLeg) : ℚ :=
  if crossed side mark leg.price then leg.left else 0

theorem triggered_le (side : PositionSide) (mark : ℚ) (leg : TpLeg) : triggered side mark leg ≤ leg.left := by
  unfold triggered
  split
  · exact le_refl _
  · exact leg.left_nonneg

theorem sum_triggers (side : PositionSide) (mark : ℚ) (legs : List TpLeg) (k : ℕ) :
    (((legs.zipIdx k).filterMap (tpTrigger side mark)).map (·.qty)).sum =
      (legs.map (triggered side mark)).sum := by
  induction legs generalizing k with
  | nil => rfl
  | cons leg legs ih =>
    have hleg : (((tpTrigger side mark (leg, k)).toList).map (·.qty)).sum = triggered side mark leg := by
      simp only [tpTrigger, triggered, TpLeg.left]
      by_cases hleft : leg.qty - leg.filledQty ≤ 0
      · simp [hleft, not_lt.2 hleft]
      · cases hcrossed : crossed side mark leg.price with
        | false => simp [hleft]
        | true => simp [hleft, not_le.1 hleft]
    rw [List.zipIdx_cons, List.filterMap_cons, List.map_cons, List.sum_cons, ← hleg, ← ih (k + 1)]
    cases tpTrigger side mark (leg, k) with
    | none => simp
    | some t => simp

theorem sum_tpEvaluate_le (s : LivePositionState) : ((tpEvaluate s).map (·.qty)).sum ≤ remainingQty s := by
  unfold tpEvaluate
  rw [remainingQty_eq]
  cases s.lastMark with
  | none => exact List.sum_nonneg (List.forall_mem_map.2 fun leg _ => leg.left_nonneg)
  | some mark =>
    rw [sum_triggers]
    exact List.sum_le_sum fun leg _ => triggered_le s.side mark leg

/-- A mark beyond every price triggers all that is left. -/
theorem sum_tpEvaluate_of_crossed {s : LivePositionState} {mark : ℚ} (hmark : s.lastMark = some mark)
    (hall : ∀ leg ∈ s.tpLadder, crossed s.side mark leg.price = true) :
    ((tpEvaluate s).map (·.qty)).sum = remainingQty s := by
  rw [tpEvaluate, hmark, sum_triggers, remainingQty_eq]
  refine congrArg List.sum (List.map_congr_left fun leg hleg => ?_)
  rw [triggered, if_pos (hall leg hleg)]

theorem exists_crossed (side : PositionSide) (legs : List TpLeg) :
    ∃ mark, ∀ leg ∈ legs, crossed side mark leg.price = true := by
  induction legs with
  | nil => exact ⟨0, List.forall_mem_nil _⟩
  | cons leg legs ih =>
    obtain ⟨mark, hmark⟩ := ih
    cases side with
    | buy =>
      refine ⟨max mark leg.price, List.forall_mem_cons.2 ⟨by simp [crossed], fun l hl => ?_⟩⟩
      have hl' := of_decide_eq_true (hmark l hl)
      exact decide_eq_true (le_max_of_le_left hl')
    | sell =>
      refine ⟨min mark leg.price, List.forall_mem_cons.2 ⟨by simp [crossed], fun l hl => ?_⟩⟩
      have hl' := of_decide_eq_true (hmark l hl)
      exact decide_eq_true (min_le_of_left_le hl')

/-! ## Over a run -/

inductive TpOp where
  | tick (price : ℚ) (at_ : DateTime)
  | fill (legIndex : ℕ) (qty : ℚ)
  | trail (atr mult : ℚ)

def tpStep (s : LivePositionState) : TpOp → LivePositionState
  | .tick price at_ => LivePositionStore.onTick price at_ s
  | .fill i qty => (recordPartialFill s i qty).2
  | .trail atr mult => (trailLastLeg s atr mult).2

def absorbed (s : LivePositionState) : TpOp → ℚ
  | .fill i qty => (recordPartialFill s i qty).1
  | _ => 0

def LegsBounded (s : LivePositionState) : Prop :=
  ∀ leg ∈ s.tpLadder, 0 ≤ leg.filledQty ∧ leg.filledQty ≤ leg.qty

/-- The legs stay within their bounds, the position shrinks by what the ladder takes, never takes
more than it had, and no tick triggers more than there is. -/
structure NoOversell (s : LivePositionState) (ops : List TpOp) : Prop where
  bounded : AllStates tpStep LegsBounded s ops
  shrinks : AllSteps tpStep (fun s op => (tpStep s op).qtyRemaining = s.qtyRemaining - absorbed s op) s ops
  taken : total tpStep absorbed s ops ≤ s.qtyRemaining
  triggers : AllStates tpStep (fun s => ((tpEvaluate s).map (·.qty)).sum ≤ s.qtyRemaining) s ops

/-- The ladder asks for no more than the position has. -/
structure Covered (s : LivePositionState) : Prop where
  bounded : LegsBounded s
  covered : remainingQty s ≤ s.qtyRemaining

section run
variable {s : LivePositionState}

/-- What one fill does to the ladder. -/
theorem remainingQty_set {i : ℕ} {leg : TpLeg} (hleg : s.tpLadder[i]? = some leg) (leg' : TpLeg) :
    ((s.tpLadder.set i leg').map (·.left)).sum = remainingQty s - leg.left + leg'.left := by
  obtain ⟨hi, hget⟩ := List.getElem?_eq_some_iff.1 hleg
  rw [List.map_set, List.sum_set', remainingQty_eq, dif_pos (by simpa using hi), List.getElem_map, hget]
  ring

theorem left_of_le {leg : TpLeg} (h : leg.filledQty ≤ leg.qty) : leg.left = leg.qty - leg.filledQty := by
  unfold TpLeg.left
  dsimp only
  split
  · rfl
  · linarith

/-- A fill of a covered position takes the same quantity from ladder and position. -/
theorem covered_fill (h : Covered s) (i : ℕ) (qty : ℚ) :
    Covered (recordPartialFill s i qty).2 ∧
      (recordPartialFill s i qty).2.qtyRemaining = s.qtyRemaining - (recordPartialFill s i qty).1 := by
  rcases recordPartialFill_cases s i qty with heq | ⟨leg, x, hleg, hpos, hle, heq⟩
  · rw [heq]
    exact ⟨h, (sub_zero _).symm⟩
  · have hbound := h.bounded leg (List.mem_of_getElem? hleg)
    have hleft := left_of_le hbound.2
    have hrest : leg.left ≤ remainingQty s := by
      rw [remainingQty_eq]
      refine List.single_le_sum (List.forall_mem_map.2 fun l _ => l.left_nonneg) _ ?_
      exact List.mem_map_of_mem (List.mem_of_getElem? hleg)
    have hcovered := h.covered
    have hroom : s.qtyRemaining ≥ x := by linarith
    have hnew : ({ leg with filledQty := leg.filledQty + x } : TpLeg).left = leg.left - x := by
      rw [left_of_le (by dsimp only; linarith), hleft]
      dsimp only
      ring
    rw [heq]
    simp only [if_pos hroom]
    refine ⟨⟨?_, ?_⟩, trivial⟩
    · intro l hl
      rcases List.mem_or_eq_of_mem_set hl with hold | rfl
      · exact h.bounded l hold
      · exact ⟨by dsimp only; linarith, by dsimp only; linarith⟩
    · rw [remainingQty_eq, remainingQty_set hleg, hnew]
      dsimp only
      linarith

theorem covered_trail (h : Covered s) (atr mult : ℚ) : Covered (trailLastLeg s atr mult).2 := by
  rcases trailLastLeg_cases s atr mult with heq | ⟨legs, leg, price, hlegs, heq⟩
  · rw [heq]
    exact h
  · rw [heq]
    constructor
    · intro l hl
      have hbounded := h.bounded
      rw [LegsBounded, hlegs, List.forall_mem_append] at hbounded
      rcases List.mem_append.1 hl with hold | hlast
      · exact hbounded.1 l hold
      · obtain rfl := List.mem_singleton.1 hlast
        exact hbounded.2 leg (List.mem_singleton_self _)
    · have hcovered := h.covered
      rw [remainingQty_eq, hlegs] at hcovered
      rw [remainingQty_eq]
      simpa [TpLeg.left] using hcovered

theorem covered_step (h : Covered s) (op : TpOp) :
    Covered (tpStep s op) ∧ (tpStep s op).qtyRemaining = s.qtyRemaining - absorbed s op := by
  cases op with
  | tick price at_ => exact ⟨⟨h.bounded, h.covered⟩, (sub_zero _).symm⟩
  | fill i qty => exact covered_fill h i qty
  | trail atr mult =>
    refine ⟨covered_trail h atr mult, ?_⟩
    rcases trailLastLeg_cases s atr mult with heq | ⟨legs, leg, price, hlegs, heq⟩
    · simp [tpStep, absorbed, heq]
    · simp [tpStep, absorbed, heq]

theorem noOversell_of_covered (h : Covered s) (ops : List TpOp) : NoOversell s ops := by
  have hstates := allStates_of_step (J := Covered) (fun s op h => (covered_step h op).1) h ops
  have hsteps : AllSteps tpStep (fun s op => (tpStep s op).qtyRemaining = s.qtyRemaining - absorbed s op) s ops :=
    allSteps_of_invariant (J := Covered) (K := fun _ => True) (G := fun _ _ => True)
      (fun s op h _ _ => covered_step h op) h (fun _ _ => trivial) (allSteps_of_forall (fun _ _ => trivial) s ops)
  have hrun : -(run tpStep s ops).qtyRemaining = -s.qtyRemaining + total tpStep absorbed s ops := by
    refine measure_run (J := Covered) (K := fun _ => True) (E := fun s => -s.qtyRemaining)
      (fun s op h _ => (covered_step h op).1) (fun s op h _ => ?_) h fun _ _ => trivial
    rw [(covered_step h op).2]
    ring
  refine ⟨hstates.imp fun s h => h.bounded, hsteps, ?_, hstates.imp fun s h => (sum_tpEvaluate_le s).trans h.covered⟩
  have hleft : 0 ≤ remainingQty (run tpStep s ops) := by
    rw [remainingQty_eq]
    exact List.sum_nonneg (List.forall_mem_map.2 fun leg _ => leg.left_nonneg)
  have hend := hstates.last.covered
  linarith

/-- **no_oversell_iff**: every run keeps position and ladder together exactly when the ladder asks
for no more than the position has at its start. -/
theorem no_oversell_iff (s : LivePositionState) (hlegs : LegsBounded s) :
    (∀ ops, NoOversell s ops) ↔ remainingQty s ≤ s.qtyRemaining := by
  constructor
  · intro h
    obtain ⟨mark, hmark⟩ := exists_crossed s.side s.tpLadder
    have htick := (h [.tick mark 0]).triggers.last
    have hall : ((tpEvaluate (tpStep s (.tick mark 0))).map (·.qty)).sum = remainingQty s :=
      sum_tpEvaluate_of_crossed (s := tpStep s (.tick mark 0)) rfl hmark
    rw [run_cons, run_nil, hall] at htick
    exact htick
  · exact fun h ops => noOversell_of_covered ⟨hlegs, h⟩ ops

end run

/-- A long of one unit from 100 with the given ladder. -/
def longOne (ladder : List TpLeg) : LivePositionState where
  id := 0
  setupId := none
  mode := .dry
  exchange := "binance"
  segment := .futures
  symbol := "BTCUSDT"
  side := .buy
  leverage := 10
  entryAvg := 100
  qtyFilled := 1
  qtyRemaining := 1
  currentSl := some 98
  tpLadder := ladder
  liquidationPrice := none
  maintMarginRatio := none
  fundingRateNext := none
  lastMark := none
  lastTickAt := none
  openedAt := 0

theorem half_and_half_kept : NoOversell (longOne [⟨105, 1 / 2, 0⟩, ⟨110, 1 / 2, 0⟩])
    [.tick 111 0, .fill 0 1, .trail 2 2, .fill 1 1] :=
  (no_oversell_iff (longOne [⟨105, 1 / 2, 0⟩, ⟨110, 1 / 2, 0⟩]) (by unfold LegsBounded; decide +kernel)).2
    (by decide +kernel) _

/-- After a scale-out the two legs ask for two units of the one that is left: both are triggered at
111, both fill, and the ladder has taken two. -/
theorem two_legs_oversell : ¬NoOversell (longOne [⟨105, 1, 0⟩, ⟨110, 1, 0⟩])
    [.tick 111 0, .fill 0 1, .fill 1 1] := by
  intro h
  have htaken := h.taken
  have htotal : total tpStep absorbed (longOne [⟨105, 1, 0⟩, ⟨110, 1, 0⟩])
      [.tick 111 0, .fill 0 1, .fill 1 1] = 2 := by decide +kernel
  rw [htotal] at htaken
  exact absurd htaken (by decide)

end Qtss.Risk
