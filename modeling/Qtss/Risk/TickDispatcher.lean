import Qtss.Lib.Scan
import Qtss.Risk.LivePositionStore
/-
# The guards of a tick (`qtss-risk/src/tick_dispatcher.rs`, `tp_engine.rs`, `liquidation_guard.rs`)

| here | there |
| --- | --- |
| `assessWithMargin`   | `assess_with_margin` (liquidation_guard.rs:102) |
| `ratchetEvaluate`, `scaleEvaluate` | `evaluate` in ratchet.rs and scale_manager.rs: without an indicator context every policy abstains |
| `tpEvaluate`         | `evaluate` (tp_engine.rs:17) |
| `evaluatePosition`, `hasAction` | tick_dispatcher.rs:104, :36 |
| `evaluateTick`       | tick_dispatcher.rs:79; each outcome comes with the snapshot it is about |

`record_partial_fill` (tp_engine.rs:37) would write a fill into the ladder and shrink `qty_remaining`. Nothing
in the repository calls it, and `evaluate_tick` does not either.
-/

namespace Qtss.Risk

/-! ## Liquidation guard -/

inductive LiquidationSeverity where
  | safe | warn | critical | breach
deriving DecidableEq, Repr

inductive LiquidationAction where
  | none | alert | addMargin | scaleOut | panicClose
deriving DecidableEq, Repr

structure LiquidationGuardConfig where
  warnDistancePct : ℚ
  criticalDistancePct : ℚ
  panicCloseDistancePct : ℚ
  minAddMarginHeadroom : ℚ
deriving DecidableEq

def LiquidationGuardConfig.default : LiquidationGuardConfig := ⟨8 / 100, 4 / 100, 15 / 1000, 0⟩

/-- Free margin; `none` when unknown. -/
structure MarginContext where
  freeMargin : Option ℚ
deriving DecidableEq

structure LiquidationAssessment where
  severity : LiquidationSeverity
  action : LiquidationAction
  mark : ℚ
  liquidation : ℚ
  distancePct : ℚ
deriving DecidableEq

def MarketSegment.canLiquidate : MarketSegment → Bool
  | .spot => false
  | .futures | .margin | .options => true

def criticalAction (margin : MarginContext) (cfg : LiquidationGuardConfig) : LiquidationAction :=
  match margin.freeMargin with
  | some free => if free ≥ cfg.minAddMarginHeadroom ∧ free > 0 then .addMargin else .scaleOut
  | none => .scaleOut

/-- "Breach always panic-closes." -/
def pickAction (severity : LiquidationSeverity) (margin : MarginContext)
    (cfg : LiquidationGuardConfig) : LiquidationAction :=
  match severity with
  | .safe => .none
  | .warn => .alert
  | .breach => .panicClose
  | .critical => criticalAction margin cfg

/-- liquidation_guard.rs:102. -/
def assessWithMargin (state : LivePositionState) (cfg : LiquidationGuardConfig)
    (margin : MarginContext) : Option LiquidationAssessment :=
  if !state.segment.canLiquidate then none
  else do
    let mark ← state.lastMark
    let liq ← state.liquidationPrice
    if mark ≤ 0 ∨ liq ≤ 0 then none
    else
      let diff := if liq > mark then liq - mark else mark - liq
      let distancePct := diff / mark
      let severity :=
        if distancePct ≤ cfg.panicCloseDistancePct then .breach
        else if distancePct ≤ cfg.criticalDistancePct then .critical
        else if distancePct ≤ cfg.warnDistancePct then .warn
        else LiquidationSeverity.safe
      some ⟨severity, pickAction severity margin cfg, mark, liq, distancePct⟩

/-! ## Ratchet and scale manager -/

inductive RatchetKind where
  | none | breakeven | trailing | chandelier
deriving DecidableEq, Repr

structure RatchetDecision where
  kind : RatchetKind
  newSl : Option ℚ
deriving DecidableEq

def ratchetEvaluate (_state : LivePositionState) : RatchetDecision := ⟨.none, none⟩

inductive ScaleDecisionKind where
  | hold | pyramidIn | scaleOut | addOnDip | partialTp
deriving DecidableEq, Repr

structure ScaleDecision where
  kind : ScaleDecisionKind
  qtyDelta : ℚ
  reason : String
deriving DecidableEq

def scaleEvaluate (_state : LivePositionState) : ScaleDecision := ⟨.hold, 0, "no scale condition met"⟩

/-! ## Take-profit engine -/

structure TpTrigger where
  legIndex : ℕ
  price : ℚ
  qty : ℚ
deriving DecidableEq

/-- The mark has reached the price, on the side of the position. -/
def crossed (side : PositionSide) (mark price : ℚ) : Bool :=
  match side with
  | .buy => decide (mark ≥ price)
  | .sell => decide (mark ≤ price)

def tpTrigger (side : PositionSide) (mark : ℚ) : TpLeg × ℕ → Option TpTrigger
  | (leg, i) =>
    let remaining := leg.qty - leg.filledQty
    if remaining ≤ 0 then none
    else if crossed side mark leg.price then some ⟨i, leg.price, remaining⟩
    else none

/-- tp_engine.rs:17. -/
def tpEvaluate (state : LivePositionState) : List TpTrigger :=
  match state.lastMark with
  | none => []
  | some mark => state.tpLadder.zipIdx.filterMap (tpTrigger state.side mark)

/-! ## A tick -/

structure PositionTickOutcomes where
  positionId : PositionId
  liquidation : Option LiquidationAssessment
  ratchet : RatchetDecision
  scale : ScaleDecision
  tpTriggers : List TpTrigger
deriving DecidableEq

/-- tick_dispatcher.rs:36. -/
def PositionTickOutcomes.hasAction (pos : PositionTickOutcomes) : Bool :=
  pos.liquidation.any (·.action != .none) || pos.ratchet.kind != .none || pos.scale.kind != .hold
    || !pos.tpTriggers.isEmpty

structure TickDispatcherConfig where
  liquidation : LiquidationGuardConfig
deriving DecidableEq

def TickDispatcherConfig.default : TickDispatcherConfig := ⟨.default⟩

structure TickContext where
  margin : MarginContext
deriving DecidableEq

def TickContext.default : TickContext := ⟨⟨none⟩⟩

/-- tick_dispatcher.rs:104. -/
def evaluatePosition (state : LivePositionState) (cfg : TickDispatcherConfig) (ctx : TickContext) :
    PositionTickOutcomes where
  positionId := state.id
  liquidation := assessWithMargin state cfg.liquidation ctx.margin
  ratchet := ratchetEvaluate state
  scale := scaleEvaluate state
  tpTriggers := tpEvaluate state

/-- tick_dispatcher.rs:79. -/
def evaluateTick (store : LivePositionStore) (key : TickKey) (price : ℚ) (at_ : DateTime)
    (cfg : TickDispatcherConfig) (ctx : TickContext) :
    List (LivePositionState × PositionTickOutcomes) × LivePositionStore :=
  let (ids, store) := store.updateMark key price at_
  (ids.filterMap fun id => (store.get id).map fun state => (state, evaluatePosition state cfg ctx), store)

/-! ## The legs that are due -/

variable {state : LivePositionState} {k : ℕ}

/-- Leg `k` has quantity left and the mark is beyond its price. -/
def Due (state : LivePositionState) (k : ℕ) : Prop :=
  ∃ mark leg, state.lastMark = some mark ∧ state.tpLadder[k]? = some leg
    ∧ 0 < leg.qty - leg.filledQty ∧ crossed state.side mark leg.price = true

def dueLegs (state : LivePositionState) : List ℕ := (tpEvaluate state).map (·.legIndex)

theorem tpTrigger_eq_some {side : PositionSide} {mark : ℚ} {leg : TpLeg} {i : ℕ} {t : TpTrigger} :
    tpTrigger side mark (leg, i) = some t ↔ 0 < leg.qty - leg.filledQty
      ∧ crossed side mark leg.price = true ∧ t = ⟨i, leg.price, leg.qty - leg.filledQty⟩ := by
  simp only [tpTrigger]
  by_cases hleft : leg.qty - leg.filledQty ≤ 0
  · simp [hleft, not_lt.2 hleft]
  · cases hcrossed : crossed side mark leg.price with
    | false => simp [hleft]
    | true => simp [hleft, not_le.1 hleft, eq_comm]

/-- **The triggers of a tick** are the legs that are due, -/
theorem mem_dueLegs : k ∈ dueLegs state ↔ Due state k := by
  unfold dueLegs tpEvaluate Due
  cases hmark : state.lastMark with
  | none => simp
  | some mark =>
    simp only [List.mem_map, List.mem_filterMap, Prod.exists, List.mem_zipIdx_iff_getElem?]
    constructor
    · rintro ⟨t, ⟨leg, i, hget, ht⟩, rfl⟩
      obtain ⟨hleft, hcrossed, rfl⟩ := tpTrigger_eq_some.1 ht
      exact ⟨mark, leg, rfl, hget, hleft, hcrossed⟩
    · rintro ⟨_, leg, hm, hget, hleft, hcrossed⟩
      obtain rfl := Option.some.inj hm
      exact ⟨_, ⟨leg, k, hget, tpTrigger_eq_some.2 ⟨hleft, hcrossed, rfl⟩⟩, rfl⟩

/-- each of them once. -/
theorem dueLegs_nodup (state : LivePositionState) : (dueLegs state).Nodup := by
  unfold dueLegs tpEvaluate
  cases state.lastMark with
  | none => simp
  | some mark =>
    apply List.pairwise_map.2
    apply Scan.pairwise_filterMap_zipIdx
    rintro ⟨leg, i⟩ ⟨leg', j⟩ t t' hij ht ht'
    obtain ⟨-, -, rfl⟩ := tpTrigger_eq_some.1 ht
    obtain ⟨-, -, rfl⟩ := tpTrigger_eq_some.1 ht'
    exact Nat.ne_of_lt hij

end Qtss.Risk
