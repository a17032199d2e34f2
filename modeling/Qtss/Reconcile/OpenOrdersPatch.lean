import Mathlib.Data.List.Dedup
import Qtss.Storage.ExchangeOrders
/-
# Open orders against order rows

| here | there |
| --- | --- |
| `parseBinanceOpenOrderIds`, `venueOrderIdsSubmittedNotOnOpenList` | `qtss-execution/src/reconcile.rs:37`, `:137` |
| `exchangeOrderStatusFromBinanceJson` | `qtss-execution/src/binance_order_status.rs:6` |
| `BinanceOpenOrdersPatchConfig` | `qtss-reconcile/src/binance_open_orders_patch.rs:14`; `worker` is `spot_worker` and `futures_worker` |
| `localSnapshots` | `local_snapshots_spot` (`qtss-worker/src/binance_spot_reconcile.rs:22`) and its sibling for futures |

An error is `none`; its text goes to a log only.
-/

namespace Qtss.Reconcile.OpenOrders
open Storage
open Execution.Dry (trim toAsciiUppercase)

structure ExchangeOrderVenueSnapshot where
  venueOrderId : ℤ
  status : OrderStatus
deriving DecidableEq

/-- `as_i64`, else `as_u64` as an `i64`. -/
def openOrderId (o : Json) : Option ℤ := do
  let v ← o.get "orderId"
  v.asI64.or (v.asU64.map fun u => (u : ℤ) - 2 ^ 64)

def parseBinanceOpenOrderIds (remote : Json) : Option (List ℤ) := do
  let arr ← remote.asArray
  arr.mapM openOrderId

/-- reconcile.rs:137. -/
def venueOrderIdsSubmittedNotOnOpenList (remoteOpen : Json) (localRows : List ExchangeOrderVenueSnapshot) :
    Option (List ℤ) := do
  let remoteIds ← parseBinanceOpenOrderIds remoteOpen
  some ((localRows.filter fun s => s.status = .submitted ∧ s.venueOrderId ∉ remoteIds).map (·.venueOrderId))

/-- binance_order_status.rs:6. -/
def exchangeOrderStatusFromBinanceJson (v : Json) : Option OrderStatus := do
  let s ← (← v.get "status").asStr
  match toAsciiUppercase (trim s) with
  | "FILLED" => some .filled
  | "PARTIALLY_FILLED" => some .partiallyFilled
  | "CANCELED" | "CANCELLED" => some .canceled
  | "REJECTED" => some .canceled
  | "EXPIRED" | "EXPIRED_IN_MATCH" => some .canceled
  | _ => none

structure BinanceOpenOrdersPatchConfig where
  refineViaOrderQuery : Bool
  refineMaxOrders : ℕ
  patchSubmittedToReconciledNotOpen : Bool
deriving DecidableEq

def BinanceOpenOrdersPatchConfig.worker (refineViaOrderQuery : Bool) (refineMaxOrders : ℕ) (patchReconciled : Bool) :
    BinanceOpenOrdersPatchConfig :=
  ⟨refineViaOrderQuery, max 1 (min 200 refineMaxOrders), patchReconciled⟩

def localSnapshots (segment : String) (rows : List ExchangeOrderRow) : List ExchangeOrderVenueSnapshot :=
  (rows.filter fun r => r.exchange = "binance" ∧ r.segment = segment).filterMap fun r =>
    r.venueOrderId.map fun id => ⟨id, r.status⟩

/-! ## The open list -/

section
variable {ids : List ℤ} {remote : Json} {rows : List ExchangeOrderVenueSnapshot}

/-- A reply of `openOrders`. -/
def openOrders (ids : List ℤ) : Json := .arr (ids.map fun id => .obj [("orderId", .int id)])

theorem openOrderId_obj {id : ℤ} (h : 0 ≤ id ∧ id < 2 ^ 63) : openOrderId (.obj [("orderId", .int id)]) = some id := by
  have hrange : -2 ^ 63 ≤ id ∧ id < 2 ^ 63 := ⟨by omega, h.2⟩
  simp only [openOrderId, Json.get, List.lookup_cons, beq_self_eq_true, Option.bind_eq_bind, Option.bind_some,
    Json.asI64, if_pos hrange, Option.some_or]

theorem parse_openOrders (h : ∀ id ∈ ids, 0 ≤ id ∧ id < 2 ^ 63) :
    parseBinanceOpenOrderIds (openOrders ids) = some ids := by
  simp only [parseBinanceOpenOrderIds, openOrders, Json.asArray, Option.bind_eq_bind, Option.bind_some]
  induction ids with
  | nil => rfl
  | cons id ids ih =>
    obtain ⟨hid, hids⟩ := List.forall_mem_cons.1 h
    rw [List.map_cons, List.mapM_cons, openOrderId_obj hid, ih hids]
    rfl

/-- What is listed is not open at the venue, as far as the reply goes. -/
theorem not_open_of_listed (h : ∀ id ∈ ids, 0 ≤ id ∧ id < 2 ^ 63) {listed : List ℤ}
    (hlisted : venueOrderIdsSubmittedNotOnOpenList (openOrders ids) rows = some listed) :
    ∀ id ∈ listed, id ∉ ids := by
  simp only [venueOrderIdsSubmittedNotOnOpenList, parse_openOrders h, Option.bind_eq_bind, Option.bind_some,
    Option.some.injEq] at hlisted
  subst hlisted
  intro id hid
  obtain ⟨s, hs, rfl⟩ := List.mem_map.1 hid
  have hcond := (List.mem_filter.1 hs).2
  exact (of_decide_eq_true hcond).2

end

end Qtss.Reconcile.OpenOrders
