import Mathlib.Data.List.Sort
import Qtss.Json
/-
# Orders sent to the venues (`qtss-storage/src/exchange_orders.rs`)

| here | there |
| --- | --- |
| `OrderStatus`      | the texts that are written to the column `status`; `'open'` is `opened` |
| `ExchangeOrderRow` | `ExchangeOrderRow` (exchange_orders.rs:13) |
| `OrderTable`       | the table, in the order the rows were inserted |
| `insertSubmitted`  | `insert_submitted` (:41); `none` is the unique violation of `(user_id, client_order_id)` |
| `markCanceled`, `markSubmittedReconciledNotOpenByVenueIds` | :114, :133 |
| `listSubmittedVenueSymbolPairs`, `updateSubmittedStatusAndVenueResponse` | :159, :185 |
| `updateStatusAndVenueResponseIfNotTerminal` | :216 |
| `fetchOrgIdForVenueOrder`, `listForUser` | :242, :287 |

An `UPDATE` gives the table and the number of rows it affected. Every statement is one step.
-/

namespace Qtss.Storage

inductive OrderStatus where
  | submitted | opened | partiallyFilled | filled | canceled | rejected | expired | reconciledNotOpen
deriving DecidableEq, Repr

/-- `('filled', 'canceled', 'rejected', 'expired')`. -/
def OrderStatus.isTerminal : OrderStatus → Bool
  | .filled | .canceled | .rejected | .expired => true
  | _ => false

structure ExchangeOrderRow where
  id : Uuid
  orgId : Uuid
  userId : Uuid
  exchange : String
  segment : String
  symbol : String
  clientOrderId : Uuid
  status : OrderStatus
  intent : Json
  venueOrderId : Option ℤ
  venueResponse : Option Json
  createdAt : DateTime
  updatedAt : DateTime

abbrev OrderTable := List ExchangeOrderRow

/-- `WHERE user_id = $1 AND exchange = $2 AND segment = $3 AND venue_order_id = $4`. -/
def ExchangeOrderRow.isVenueOrder (r : ExchangeOrderRow) (userId : Uuid) (exchange segment : String)
    (venueOrderId : ℤ) : Bool :=
  r.userId == userId && r.exchange == exchange && r.segment == segment && r.venueOrderId == some venueOrderId

/-- `UPDATE … SET … WHERE …`. -/
def OrderTable.update (t : OrderTable) (cond : ExchangeOrderRow → Bool)
    (set : ExchangeOrderRow → ExchangeOrderRow) : OrderTable × ℕ :=
  (t.map fun r => if cond r then set r else r, t.countP cond)

/-- The arguments of `insert_submitted`, with the id and the time that the database gives the row. -/
structure NewOrder where
  id : Uuid
  orgId : Uuid
  userId : Uuid
  exchange : String
  segment : String
  symbol : String
  clientOrderId : Uuid
  intent : Json
  venueOrderId : Option ℤ
  venueResponse : Option Json
  now : DateTime

def NewOrder.row (o : NewOrder) : ExchangeOrderRow where
  id := o.id
  orgId := o.orgId
  userId := o.userId
  exchange := o.exchange
  segment := o.segment
  symbol := o.symbol
  clientOrderId := o.clientOrderId
  status := .submitted
  intent := o.intent
  venueOrderId := o.venueOrderId
  venueResponse := o.venueResponse
  createdAt := o.now
  updatedAt := o.now

def insertSubmitted (t : OrderTable) (o : NewOrder) : Option OrderTable :=
  if t.any fun r => r.userId == o.userId && r.clientOrderId == o.clientOrderId then none else some (t ++ [o.row])

/-- exchange_orders.rs:114: whatever the status is. -/
def markCanceled (t : OrderTable) (userId clientOrderId : Uuid) (now : DateTime) : OrderTable × ℕ :=
  t.update (fun r => r.userId == userId && r.clientOrderId == clientOrderId) fun r =>
    { r with status := .canceled, updatedAt := now }

/-- exchange_orders.rs:133. -/
def markSubmittedReconciledNotOpenByVenueIds (t : OrderTable) (userId : Uuid) (exchange segment : String)
    (venueOrderIds : List ℤ) (now : DateTime) : OrderTable × ℕ :=
  t.update (fun r => venueOrderIds.any (r.isVenueOrder userId exchange segment) && r.status == .submitted)
    fun r => { r with status := .reconciledNotOpen, updatedAt := now }

/-- exchange_orders.rs:159. -/
def listSubmittedVenueSymbolPairs (t : OrderTable) (userId : Uuid) (exchange segment : String)
    (venueOrderIds : List ℤ) : List (ℤ × String) :=
  t.filterMap fun r =>
    if venueOrderIds.any (r.isVenueOrder userId exchange segment) && r.status == .submitted then
      r.venueOrderId.map fun id => (id, r.symbol)
    else none

def setVenueStatus (status : OrderStatus) (venueResponse : Json) (now : DateTime) (r : ExchangeOrderRow) :
    ExchangeOrderRow :=
  { r with status := status, venueResponse := some venueResponse, updatedAt := now }

section
variable (status : OrderStatus) (venueResponse : Json) (now : DateTime) (r : ExchangeOrderRow)

@[simp] theorem setVenueStatus_status : (setVenueStatus status venueResponse now r).status = status := rfl

@[simp] theorem setVenueStatus_isVenueOrder (userId : Uuid) (exchange segment : String) (venueOrderId : ℤ) :
    (setVenueStatus status venueResponse now r).isVenueOrder userId exchange segment venueOrderId =
      r.isVenueOrder userId exchange segment venueOrderId := rfl

end

/-- exchange_orders.rs:185. -/
def updateSubmittedStatusAndVenueResponse (t : OrderTable) (userId : Uuid) (exchange segment : String)
    (venueOrderId : ℤ) (status : OrderStatus) (venueResponse : Json) (now : DateTime) : OrderTable × ℕ :=
  t.update (fun r => r.isVenueOrder userId exchange segment venueOrderId && r.status == .submitted)
    (setVenueStatus status venueResponse now)

/-- exchange_orders.rs:216. -/
def updateStatusAndVenueResponseIfNotTerminal (t : OrderTable) (userId : Uuid) (exchange segment : String)
    (venueOrderId : ℤ) (status : OrderStatus) (venueResponse : Json) (now : DateTime) : OrderTable × ℕ :=
  t.update (fun r => r.isVenueOrder userId exchange segment venueOrderId && !r.status.isTerminal)
    (setVenueStatus status venueResponse now)

def fetchOrgIdForVenueOrder (t : OrderTable) (userId : Uuid) (exchange segment : String) (venueOrderId : ℤ) :
    Option Uuid :=
  (t.find? (·.isVenueOrder userId exchange segment venueOrderId)).map (·.orgId)

/-- exchange_orders.rs:287: the rows last updated first. -/
def listForUser (t : OrderTable) (userId : Uuid) (limit : ℕ) : List ExchangeOrderRow :=
  ((t.filter (·.userId == userId)).insertionSort fun a b => b.updatedAt ≤ a.updatedAt).take limit

/-! ## Updates row by row -/

section update
variable {t : OrderTable} {cond : ExchangeOrderRow → Bool} {set : ExchangeOrderRow → ExchangeOrderRow}

theorem getElem?_update (i : ℕ) :
    (t.update cond set).1[i]? = t[i]?.map fun r => if cond r then set r else r := List.getElem?_map

theorem mem_update {r : ExchangeOrderRow} :
    r ∈ (t.update cond set).1 ↔ ∃ r₀ ∈ t, (if cond r₀ then set r₀ else r₀) = r := List.mem_map

theorem mem_insertSubmitted {t' : OrderTable} {o : NewOrder} (h : insertSubmitted t o = some t')
    {r : ExchangeOrderRow} : r ∈ t' ↔ r ∈ t ∨ r = o.row := by
  unfold insertSubmitted at h
  split at h
  · cases h
  · obtain rfl := Option.some.inj h
    simp

end update

end Qtss.Storage
