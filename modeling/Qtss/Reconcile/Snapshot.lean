import Mathlib.Algebra.Order.Ring.Abs
import Mathlib.Algebra.Order.Field.Rat
import Mathlib.Data.String.Basic
import Mathlib.Tactic.Linarith
import Qtss.Lib.Keyed
/-
# Snapshot diff (`qtss-reconcile/src/v2.rs`)

| here | there |
| --- | --- |
| `PositionRow`, `OrderRow`, `Snapshot` | `BrokerPosition` / `EnginePosition` and so on (v2.rs:25-70): the two sides have the same fields |
| `reconcile`        | `reconcile` (:135); its `debug_assert` on the venues is not part of a release build |
| `diffPositions`    | `diff_positions` (:153) |
| `classifyPosition` | `classify_position` (:186) |
| `diffOrders`       | `diff_orders` (:212) |
| `rollUp`, `maxSev` | `roll_up`, `max_sev` (:249, :262) |

Both lists are collected into a `BTreeMap`, so of several rows with one key the last is compared and
the others are dropped. A report is the drifts of its symbols and of its client ids and nothing else
(`reconcile_eq_iff`); what one symbol and one id report depends on `lastQty` and `lastOrder` there.
-/

namespace Qtss.Reconcile
open Keyed

structure PositionRow where
  symbol : String
  /-- Signed net quantity (positive = long, negative = short). -/
  netQty : ℚ
deriving DecidableEq

abbrev BrokerPosition := PositionRow
abbrev EnginePosition := PositionRow

structure OrderRow where
  clientOrderId : String
  symbol : String
  remainingQty : ℚ
deriving DecidableEq

abbrev BrokerOpenOrder := OrderRow
abbrev EngineOpenOrder := OrderRow

structure Snapshot where
  venue : String
  positions : List PositionRow
  openOrders : List OrderRow
deriving DecidableEq

abbrev BrokerSnapshot := Snapshot
abbrev EngineSnapshot := Snapshot

inductive DriftSeverity where
  | none | soft | drift | critical
deriving DecidableEq, Repr

structure PositionDrift where
  symbol : String
  brokerQty : ℚ
  engineQty : ℚ
  absDelta : ℚ
  severity : DriftSeverity
deriving DecidableEq

inductive OrderDriftSide where
  | brokerOnly | engineOnly | quantityMismatch
deriving DecidableEq, Repr

structure OrderDrift where
  clientOrderId : String
  symbol : String
  side : OrderDriftSide
deriving DecidableEq

structure ReconcileReport where
  venue : String
  positions : List PositionDrift
  orders : List OrderDrift
  overall : DriftSeverity
deriving DecidableEq

def ReconcileReport.isClean (r : ReconcileReport) : Bool := r.overall == .none

structure ReconcileTolerance where
  positionQtyEps : ℚ
deriving DecidableEq

/-- v2.rs:186. -/
def classifyPosition (broker engine delta : ℚ) (tol : ReconcileTolerance) : DriftSeverity :=
  let brokerFlat := broker == 0
  let engineFlat := engine == 0
  if brokerFlat ^^ engineFlat then .critical
  else if delta = 0 then .none
  -- "Sign flip is always critical regardless of magnitude."
  else if (decide (broker > 0)) != decide (engine > 0) then .critical
  else if delta ≤ tol.positionQtyEps then .soft
  else .drift

/-- The closure of `diff_positions` (:167-182): what one symbol reports. -/
def positionDrift (tol : ReconcileTolerance) (sym : String) (b e : ℚ) : Option PositionDrift :=
  let delta := |b - e|
  let severity := classifyPosition b e delta tol
  if severity = .none then none else some ⟨sym, b, e, delta, severity⟩

def positionMap (rows : List PositionRow) : HashMap String ℚ :=
  collect (rows.map fun p => (p.symbol, p.netQty))

/-- v2.rs:153. -/
def diffPositions (bp : List BrokerPosition) (ep : List EnginePosition)
    (tol : ReconcileTolerance) : List PositionDrift :=
  let broker := positionMap bp
  let engine := positionMap ep
  let symbols := ascending (broker.keys ++ engine.keys)
  symbols.filterMap fun sym =>
    let b := (broker.lookup sym).getD 0
    let e := (engine.lookup sym).getD 0
    positionDrift tol sym b e

def orderMap (rows : List OrderRow) : HashMap String OrderRow :=
  collect (rows.map fun o => (o.clientOrderId, o))

/-- The first loop of `diff_orders` (:222-236) at one id. -/
def brokerDrift (id : String) (broker engine : Option OrderRow) : Option OrderDrift :=
  match broker, engine with
  | some b, none => some ⟨id, b.symbol, .brokerOnly⟩
  | some b, some e =>
    if e.remainingQty ≠ b.remainingQty then some ⟨id, b.symbol, .quantityMismatch⟩ else none
  | none, _ => none

/-- The second loop of `diff_orders` (:237-245) at one id. -/
def engineDrift (id : String) (broker engine : Option OrderRow) : Option OrderDrift :=
  match broker, engine with
  | none, some e => some ⟨id, e.symbol, .engineOnly⟩
  | _, _ => none

/-- v2.rs:212. -/
def diffOrders (bo : List BrokerOpenOrder) (eo : List EngineOpenOrder) : List OrderDrift :=
  let broker := orderMap bo
  let engine := orderMap eo
  (ascending broker.keys).filterMap (fun id => brokerDrift id (broker.lookup id) (engine.lookup id))
    ++ (ascending engine.keys).filterMap fun id =>
      engineDrift id (broker.lookup id) (engine.lookup id)

/-- `rank` in `max_sev` (:263). -/
def DriftSeverity.rank : DriftSeverity → Nat
  | .none => 0
  | .soft => 1
  | .drift => 2
  | .critical => 3

def maxSev (a b : DriftSeverity) : DriftSeverity := if a.rank ≥ b.rank then a else b

/-- v2.rs:249. -/
def rollUp (positions : List PositionDrift) (orders : List OrderDrift) : DriftSeverity :=
  let worst := positions.foldl (fun worst p => maxSev worst p.severity) .none
  -- "Any open-order drift is at minimum Drift"
  if orders ≠ [] then maxSev worst .drift else worst

/-- v2.rs:135. -/
def reconcile (broker : BrokerSnapshot) (engine : EngineSnapshot) (tol : ReconcileTolerance) :
    ReconcileReport :=
  let positions := diffPositions broker.positions engine.positions tol
  let orders := diffOrders broker.openOrders engine.openOrders
  ⟨broker.venue, positions, orders, rollUp positions orders⟩

/-! ## One symbol -/

/-- The quantity of the last row of a symbol, zero without one. -/
def lastQty (rows : List PositionRow) (sym : String) : ℚ :=
  ((rows.filter (·.symbol = sym)).getLast?.map (·.netQty)).getD 0

theorem filter_pairs {α β : Type*} (key : α → String) (val : α → β) (rows : List α) (k : String) :
    (rows.map fun r => (key r, val r)).filter (·.1 = k) =
      (rows.filter (key · = k)).map fun r => (key r, val r) := by
  rw [List.filter_map]
  rfl

theorem positionMap_lookup (rows : List PositionRow) (sym : String) :
    (positionMap rows).lookup sym = (rows.filter (·.symbol = sym)).getLast?.map (·.netQty) := by
  rw [positionMap, lookup_collect, filter_pairs, List.getLast?_map, Option.map_map]
  rfl

section position
variable {tol : ReconcileTolerance} {sym : String} {b e : ℚ}

/-- What `classify_position` says of two quantities. -/
theorem classifyPosition_eq (b e : ℚ) (tol : ReconcileTolerance) :
    classifyPosition b e |b - e| tol =
      if b = e then .none
      else if b * e ≤ 0 then .critical
      else if |b - e| ≤ tol.positionQtyEps then .soft
      else .drift := by
  simp only [classifyPosition, abs_eq_zero, sub_eq_zero]
  by_cases hbe : b = e
  · subst hbe
    simp
  · rcases lt_trichotomy b 0 with hb | rfl | hb <;> rcases lt_trichotomy e 0 with he | rfl | he
    · simp [hbe, hb.ne, he.ne, hb.not_gt, he.not_gt, (mul_pos_of_neg_of_neg hb he).not_ge]
    · simp [hb.ne]
    · simp [hbe, hb.ne, he.ne', hb.not_gt, he, (mul_neg_of_neg_of_pos hb he).le]
    · simp [he.ne, hbe]
    · exact absurd rfl hbe
    · simp [he.ne', hbe]
    · simp [hbe, hb.ne', he.ne, hb, he.not_gt, (mul_neg_of_pos_of_neg hb he).le]
    · simp [hb.ne']
    · simp [hbe, hb.ne', he.ne', hb, he, (mul_pos hb he).not_ge]

theorem classifyPosition_none : classifyPosition b e |b - e| tol = .none ↔ b = e := by
  rw [classifyPosition_eq]
  split_ifs <;> simp [*]

theorem positionDrift_none : positionDrift tol sym b e = none ↔ b = e := by
  simp [positionDrift, classifyPosition_none]

theorem positionDrift_of_ne (h : b ≠ e) :
    positionDrift tol sym b e =
      some ⟨sym, b, e, |b - e|, classifyPosition b e |b - e| tol⟩ := by
  simp [positionDrift, classifyPosition_none, h]

theorem positionDrift_symbol {k : String} {d : PositionDrift}
    (h : positionDrift tol k b e = some d) : d.symbol = k := by
  by_cases hbe : b = e
  · rw [positionDrift_none.2 hbe] at h
    cases h
  · rw [positionDrift_of_ne hbe] at h
    exact (congrArg PositionDrift.symbol (Option.some.inj h)).symm

/-- A symbol reports the two quantities, or nothing if they agree. -/
theorem positionDrift_eq_iff {b' e' : ℚ} :
    positionDrift tol sym b e = positionDrift tol sym b' e' ↔
      (b = b' ∧ e = e') ∨ (b = e ∧ b' = e') := by
  by_cases h : b = e <;> by_cases h' : b' = e'
  · rw [positionDrift_none.2 h, positionDrift_none.2 h']
    simp [h, h']
  · rw [positionDrift_none.2 h, positionDrift_of_ne h']
    simp only [reduceCtorEq, h', and_false, or_false, false_iff, not_and]
    rintro rfl rfl
    exact h' h
  · rw [positionDrift_none.2 h', positionDrift_of_ne h]
    simp only [reduceCtorEq, h, false_and, or_false, false_iff, not_and]
    rintro rfl rfl
    exact h h'
  · rw [positionDrift_of_ne h, positionDrift_of_ne h']
    simp only [Option.some.injEq, PositionDrift.mk.injEq, true_and, h, false_and, or_false]
    constructor
    · rintro ⟨hb, he, -⟩
      exact ⟨hb, he⟩
    · rintro ⟨rfl, rfl⟩
      exact ⟨rfl, rfl, rfl, rfl⟩

end position

theorem diffPositions_eq (bp ep : List PositionRow) (tol : ReconcileTolerance) :
    diffPositions bp ep tol =
      (ascending ((positionMap bp).keys ++ (positionMap ep).keys)).filterMap fun sym =>
        positionDrift tol sym (lastQty bp sym) (lastQty ep sym) := by
  simp only [diffPositions, positionMap_lookup]
  rfl

theorem lastQty_of_not_mem {rows : List PositionRow} {sym : String}
    (h : sym ∉ (positionMap rows).keys) : lastQty rows sym = 0 := by
  have hnone : (positionMap rows).lookup sym = none := AList.lookup_eq_none.2 h
  rw [positionMap_lookup] at hnone
  rw [lastQty, hnone]
  rfl

theorem positionDrift_of_not_mem {bp ep : List PositionRow} {tol : ReconcileTolerance}
    (sym : String) (h : sym ∉ (positionMap bp).keys ++ (positionMap ep).keys) :
    positionDrift tol sym (lastQty bp sym) (lastQty ep sym) = none := by
  obtain ⟨hb, he⟩ := not_or.1 (mt List.mem_append.2 h)
  rw [lastQty_of_not_mem hb, lastQty_of_not_mem he]
  exact positionDrift_none.2 rfl

/-- What the report says of one symbol. -/
theorem diffPositions_filter (bp ep : List PositionRow) (tol : ReconcileTolerance) (sym : String) :
    (diffPositions bp ep tol).filter (·.symbol = sym) =
      (positionDrift tol sym (lastQty bp sym) (lastQty ep sym)).toList := by
  rw [diffPositions_eq, filter_filterMap_tag (fun _ _ => positionDrift_symbol) (nodup_ascending _)]
  split
  · rfl
  · rename_i h
    rw [positionDrift_of_not_mem sym (mt mem_ascending.2 h)]
    rfl

theorem diffPositions_eq_iff {bp ep bp' ep' : List PositionRow} {tol : ReconcileTolerance} :
    diffPositions bp ep tol = diffPositions bp' ep' tol ↔
      ∀ sym, positionDrift tol sym (lastQty bp sym) (lastQty ep sym) =
        positionDrift tol sym (lastQty bp' sym) (lastQty ep' sym) := by
  rw [diffPositions_eq, diffPositions_eq]
  exact filterMap_ascending_eq_iff (fun _ _ => positionDrift_symbol) (fun _ _ => positionDrift_symbol)
    positionDrift_of_not_mem positionDrift_of_not_mem

/-! ## One client id -/

/-- The last row of a client id. -/
def lastOrder (rows : List OrderRow) (id : String) : Option OrderRow :=
  (rows.filter (·.clientOrderId = id)).getLast?

theorem orderMap_lookup (rows : List OrderRow) (id : String) :
    (orderMap rows).lookup id = lastOrder rows id := by
  rw [orderMap, lookup_collect, filter_pairs, List.getLast?_map, Option.map_map]
  exact congrFun Option.map_id _

/-- What one client id reports. -/
def orderDrift (id : String) (b e : Option OrderRow) : Option OrderDrift :=
  (brokerDrift id b e).or (engineDrift id b e)

section order
variable {id : String} {b e b' e' : Option OrderRow} {d : OrderDrift}

theorem brokerDrift_tag (h : brokerDrift id b e = some d) :
    d.clientOrderId = id ∧ d.side ≠ .engineOnly := by
  unfold brokerDrift at h
  split at h
  · obtain rfl := Option.some.inj h
    simp
  · split at h
    · obtain rfl := Option.some.inj h
      simp
    · cases h
  · cases h

theorem engineDrift_tag (h : engineDrift id b e = some d) :
    d.clientOrderId = id ∧ d.side = .engineOnly := by
  unfold engineDrift at h
  split at h
  · obtain rfl := Option.some.inj h
    simp
  · cases h

theorem brokerDrift_or_engineDrift (id : String) (b e : Option OrderRow) :
    brokerDrift id b e = none ∨ engineDrift id b e = none := by
  cases b <;> cases e <;> simp [brokerDrift, engineDrift]

theorem brokerDrift_filter :
    (brokerDrift id b e).filter (fun d => decide (d.side ≠ .engineOnly)) = brokerDrift id b e := by
  cases h : brokerDrift id b e with
  | none => rfl
  | some d => simp [(brokerDrift_tag h).2]

theorem engineDrift_filter :
    (engineDrift id b e).filter (fun d => decide (d.side ≠ .engineOnly)) = none := by
  cases h : engineDrift id b e with
  | none => rfl
  | some d => simp [(engineDrift_tag h).2]

theorem orderDrift_filter (b e : Option OrderRow) :
    (orderDrift id b e).filter (fun d => decide (d.side ≠ .engineOnly)) = brokerDrift id b e := by
  unfold orderDrift
  rcases brokerDrift_or_engineDrift id b e with h | h
  · rw [h, Option.none_or, engineDrift_filter]
  · rw [h, Option.or_none, brokerDrift_filter]

/-- The two loops report an id independently. -/
theorem orderDrift_eq_iff :
    orderDrift id b e = orderDrift id b' e' ↔
      brokerDrift id b e = brokerDrift id b' e' ∧ engineDrift id b e = engineDrift id b' e' := by
  constructor
  · intro h
    have hbroker : brokerDrift id b e = brokerDrift id b' e' := by
      rw [← orderDrift_filter b e, h, orderDrift_filter]
    refine ⟨hbroker, ?_⟩
    unfold orderDrift at h
    rw [hbroker] at h
    rcases brokerDrift_or_engineDrift id b e with h1 | h1 <;>
      rcases brokerDrift_or_engineDrift id b' e' with h2 | h2
    · rwa [h2, Option.none_or, Option.none_or] at h
    · rwa [← hbroker, h1, Option.none_or, Option.none_or] at h
    · rwa [h2, Option.none_or, Option.none_or] at h
    · rw [h1, h2]
  · rintro ⟨hb, he⟩
    rw [orderDrift, hb, he, orderDrift]

end order

section orders
variable {bo eo bo' eo' : List OrderRow}

theorem lastOrder_of_not_mem {rows : List OrderRow} {id : String} (h : id ∉ (orderMap rows).keys) :
    lastOrder rows id = none := by
  rw [← orderMap_lookup]
  exact AList.lookup_eq_none.2 h

theorem brokerDrift_of_not_mem (id : String) (h : id ∉ (orderMap bo).keys) :
    brokerDrift id (lastOrder bo id) (lastOrder eo id) = none := by
  rw [lastOrder_of_not_mem h]
  rfl

theorem engineDrift_of_not_mem (id : String) (h : id ∉ (orderMap eo).keys) :
    engineDrift id (lastOrder bo id) (lastOrder eo id) = none := by
  rw [lastOrder_of_not_mem h]
  cases lastOrder bo id <;> rfl

theorem diffOrders_eq (bo eo : List OrderRow) :
    diffOrders bo eo =
      (ascending (orderMap bo).keys).filterMap
          (fun id => brokerDrift id (lastOrder bo id) (lastOrder eo id))
        ++ (ascending (orderMap eo).keys).filterMap
          fun id => engineDrift id (lastOrder bo id) (lastOrder eo id) := by
  simp only [diffOrders, orderMap_lookup]

/-- What the report says of one client id. -/
theorem diffOrders_filter (bo eo : List OrderRow) (id : String) :
    (diffOrders bo eo).filter (·.clientOrderId = id) =
      (orderDrift id (lastOrder bo id) (lastOrder eo id)).toList := by
  rw [diffOrders_eq, List.filter_append,
    filter_filterMap_tag (fun _ _ h => (brokerDrift_tag h).1) (nodup_ascending _),
    filter_filterMap_tag (fun _ _ h => (engineDrift_tag h).1) (nodup_ascending _)]
  have hbroker : (if id ∈ ascending (orderMap bo).keys then
      (brokerDrift id (lastOrder bo id) (lastOrder eo id)).toList else []) =
      (brokerDrift id (lastOrder bo id) (lastOrder eo id)).toList := by
    split
    · rfl
    · rename_i h
      rw [brokerDrift_of_not_mem id (mt mem_ascending.2 h)]
      rfl
  have hengine : (if id ∈ ascending (orderMap eo).keys then
      (engineDrift id (lastOrder bo id) (lastOrder eo id)).toList else []) =
      (engineDrift id (lastOrder bo id) (lastOrder eo id)).toList := by
    split
    · rfl
    · rename_i h
      rw [engineDrift_of_not_mem id (mt mem_ascending.2 h)]
      rfl
  rw [hbroker, hengine, orderDrift]
  rcases brokerDrift_or_engineDrift id (lastOrder bo id) (lastOrder eo id) with h | h
  · rw [h, Option.none_or]
    rfl
  · rw [h, Option.or_none]
    exact List.append_nil _

theorem filter_side_brokerDrift (ids : List String) (bo eo : List OrderRow) :
    (ids.filterMap fun id => brokerDrift id (lastOrder bo id) (lastOrder eo id)).filter
        (fun d => decide (d.side ≠ .engineOnly)) =
      ids.filterMap fun id => brokerDrift id (lastOrder bo id) (lastOrder eo id) := by
  rw [List.filter_filterMap]
  exact List.filterMap_congr fun id _ => brokerDrift_filter

theorem filter_side_engineDrift (ids : List String) (bo eo : List OrderRow) :
    (ids.filterMap fun id => engineDrift id (lastOrder bo id) (lastOrder eo id)).filter
        (fun d => decide (d.side ≠ .engineOnly)) = [] := by
  rw [List.filter_filterMap, List.filterMap_eq_nil_iff]
  exact fun id _ => engineDrift_filter

theorem diffOrders_eq_iff :
    diffOrders bo eo = diffOrders bo' eo' ↔
      ∀ id, orderDrift id (lastOrder bo id) (lastOrder eo id) =
        orderDrift id (lastOrder bo' id) (lastOrder eo' id) := by
  simp only [orderDrift_eq_iff, forall_and]
  rw [← filterMap_ascending_eq_iff (fun _ _ h => (brokerDrift_tag h).1)
      (fun _ _ h => (brokerDrift_tag h).1) brokerDrift_of_not_mem brokerDrift_of_not_mem,
    ← filterMap_ascending_eq_iff (fun _ _ h => (engineDrift_tag h).1)
      (fun _ _ h => (engineDrift_tag h).1) engineDrift_of_not_mem engineDrift_of_not_mem]
  constructor
  · intro h
    have hbroker := congrArg (List.filter fun d => decide (d.side ≠ .engineOnly)) h
    simp only [diffOrders_eq, List.filter_append, filter_side_brokerDrift, filter_side_engineDrift,
      List.append_nil] at hbroker
    rw [diffOrders_eq, diffOrders_eq, hbroker] at h
    exact ⟨hbroker, List.append_cancel_left h⟩
  · rintro ⟨hb, he⟩
    rw [diffOrders_eq, diffOrders_eq, hb, he]

end orders

/-- A report is what each symbol and each client id reports. -/
theorem reconcile_eq_iff {b b' : BrokerSnapshot} {e e' : EngineSnapshot} {tol : ReconcileTolerance} :
    reconcile b e tol = reconcile b' e' tol ↔
      b.venue = b'.venue
      ∧ (∀ sym, positionDrift tol sym (lastQty b.positions sym) (lastQty e.positions sym) =
          positionDrift tol sym (lastQty b'.positions sym) (lastQty e'.positions sym))
      ∧ ∀ id, orderDrift id (lastOrder b.openOrders id) (lastOrder e.openOrders id) =
          orderDrift id (lastOrder b'.openOrders id) (lastOrder e'.openOrders id) := by
  rw [← diffPositions_eq_iff, ← diffOrders_eq_iff]
  simp only [reconcile, ReconcileReport.mk.injEq]
  constructor
  · rintro ⟨hv, hp, ho, -⟩
    exact ⟨hv, hp, ho⟩
  · rintro ⟨hv, hp, ho⟩
    exact ⟨hv, hp, ho, by rw [hp, ho]⟩

end Qtss.Reconcile
