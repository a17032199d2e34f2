import Qtss.Execution.Builder
import Qtss.Lib.Keyed
/-
# Routing a bracket (`qtss-execution-v2/src/router.rs`)

| here | there |
| --- | --- |
| `Fill`, `OrderAck`       | `adapter.rs:27`, `:37` |
| `ExecutionAdapter`       | the trait of that name (:61): `place` only |
| `Journal`                | every `place` call made so far with its reply, oldest first |
| `ExecutionRouter.route`  | `ExecutionRouter::route` (router.rs:52) |

An adapter is outside code with a state of its own, so its reply is an arbitrary function of the
journal and the request. `route` is documented to return "a partial result if the stop or any
take-profit fails (the entry has already filled by then)", but its error carries no ack: what was
accepted before the failing leg is known to the venue and to nobody else. `placeAll_acked` follows
the early return through the legs, `route_delivers_iff` is the exact condition for it to lose
nothing.
-/

namespace Qtss.Execution
open Keyed

inductive OrderStatus where
  | new | partiallyFilled | filled | canceled | rejected
deriving DecidableEq, Repr

structure Fill where
  fillId : Uuid
  orderId : Uuid
  price : ℚ
  quantity : ℚ
  fee : ℚ
  at_ : DateTime
deriving DecidableEq

structure OrderAck where
  clientOrderId : Uuid
  venueOrderId : String
  status : OrderStatus
  acceptedAt : DateTime
  fills : List Fill
deriving DecidableEq

abbrev Reply := Except ExecutionError OrderAck

abbrev Journal := List (OrderRequest × Reply)

structure ExecutionAdapter where
  place : Journal → OrderRequest → Reply

structure ExecutionRouter where
  adapters : HashMap ExecutionMode ExecutionAdapter

structure RoutedAcks where
  entry : OrderAck
  stop : OrderAck
  takeProfits : List OrderAck
deriving DecidableEq

/-- One awaited `adapter.place(req)`. -/
def ExecutionAdapter.call (a : ExecutionAdapter) (j : Journal) (req : OrderRequest) :
    Reply × Journal :=
  let reply := a.place j req
  (reply, j ++ [(req, reply)])

/-- Placing one request after the other until one fails: the loop over the take profits
(router.rs:63-66). -/
def placeAll (a : ExecutionAdapter) (j : Journal) :
    List OrderRequest → Except ExecutionError (List OrderAck) × Journal
  | [] => (.ok [], j)
  | req :: reqs =>
    match a.call j req with
    | (.error e, j) => (.error e, j)
    | (.ok ack, j) =>
      match placeAll a j reqs with
      | (.error e, j) => (.error e, j)
      | (.ok acks, j) => (.ok (ack :: acks), j)

namespace ExecutionRouter

def new : ExecutionRouter := ⟨∅⟩

def register (r : ExecutionRouter) (mode : ExecutionMode) (a : ExecutionAdapter) :
    ExecutionRouter := ⟨r.adapters.insert mode a⟩

/-- router.rs:52. -/
def route (r : ExecutionRouter) (newV4 : Nat → Uuid) (j : Journal) (approved : ApprovedIntent) :
    Except ExecutionError RoutedAcks × Journal :=
  match splitIntent newV4 approved with
  | .error e => (.error e, j)
  | .ok bracket =>
    let mode := approved.intent.mode
    match r.adapters.lookup mode with
    | none => (.error (.noAdapter mode), j)
    | some adapter =>
      match adapter.call j bracket.entry with
      | (.error e, j) => (.error e, j)
      | (.ok entry, j) =>
        match adapter.call j bracket.stop with
        | (.error e, j) => (.error e, j)
        | (.ok stop, j) =>
          match placeAll adapter j bracket.takeProfits with
          | (.error e, j) => (.error e, j)
          | (.ok tps, j) => (.ok ⟨entry, stop, tps⟩, j)

end ExecutionRouter

/-! ## What was accepted and what is returned -/

/-- The acks of a journal. -/
def acked (j : Journal) : List OrderAck := j.filterMap (·.2.toOption)

/-- The acks a caller of `route` gets. -/
def delivered : Except ExecutionError RoutedAcks → List OrderAck
  | .ok acks => acks.entry :: acks.stop :: acks.takeProfits
  | .error _ => []

/-- Every request of the list is acknowledged when placed in order. -/
def AllAcked (a : ExecutionAdapter) : Journal → List OrderRequest → Prop
  | _, [] => True
  | j, req :: reqs =>
    (∃ ack, a.place j req = .ok ack) ∧ AllAcked a (a.call j req).2 reqs

/-- `route` hands over every ack it received. -/
def Delivers (r : ExecutionRouter) (newV4 : Nat → Uuid) (j : Journal) (approved : ApprovedIntent) :
    Prop :=
  acked (r.route newV4 j approved).2 = acked j ++ delivered (r.route newV4 j approved).1

/-- Nothing is placed, or the entry is refused, or no leg is. -/
def Settles (r : ExecutionRouter) (newV4 : Nat → Uuid) (j : Journal) (approved : ApprovedIntent) :
    Prop :=
  ∀ bracket, splitIntent newV4 approved = .ok bracket →
    ∀ adapter ∈ r.adapters.lookup approved.intent.mode,
      (∃ e, adapter.place j bracket.entry = .error e) ∨ AllAcked adapter j bracket.legs

section place
variable {a : ExecutionAdapter} {j : Journal} {req : OrderRequest}

theorem placeAll_cons_error {e : ExecutionError} (hr : a.place j req = .error e)
    (reqs : List OrderRequest) :
    placeAll a j (req :: reqs) = (.error e, j ++ [(req, .error e)]) := by
  simp [placeAll, ExecutionAdapter.call, hr]

theorem placeAll_cons_ok {ack : OrderAck} (hr : a.place j req = .ok ack)
    (reqs : List OrderRequest) :
    placeAll a j (req :: reqs) =
      ((placeAll a (j ++ [(req, .ok ack)]) reqs).1.map (ack :: ·),
        (placeAll a (j ++ [(req, .ok ack)]) reqs).2) := by
  simp only [placeAll, ExecutionAdapter.call, hr]
  cases h : placeAll a (j ++ [(req, .ok ack)]) reqs with
  | mk result j' => cases result <;> rfl

theorem allAcked_cons_ok {ack : OrderAck} (hr : a.place j req = .ok ack)
    (reqs : List OrderRequest) :
    AllAcked a j (req :: reqs) ↔ AllAcked a (j ++ [(req, .ok ack)]) reqs := by
  simp [AllAcked, ExecutionAdapter.call, hr]

@[simp] theorem acked_snoc_ok (j : Journal) (req : OrderRequest) (ack : OrderAck) :
    acked (j ++ [(req, .ok ack)]) = acked j ++ [ack] := by simp [acked, Except.toOption]

@[simp] theorem acked_snoc_error (j : Journal) (req : OrderRequest) (e : ExecutionError) :
    acked (j ++ [(req, .error e)]) = acked j := by simp [acked, Except.toOption]

end place

/-- The early return, leg by leg: the acks up to the first failure are in the journal; they are
returned if there is no failure. -/
theorem placeAll_acked (a : ExecutionAdapter) (reqs : List OrderRequest) (j : Journal) :
    ∃ acks, acked (placeAll a j reqs).2 = acked j ++ acks ∧
      ((placeAll a j reqs).1 = .ok acks ∧ AllAcked a j reqs ∨
        (∃ e, (placeAll a j reqs).1 = .error e) ∧ ¬ AllAcked a j reqs) := by
  induction reqs generalizing j with
  | nil => exact ⟨[], by simp [placeAll], .inl ⟨rfl, trivial⟩⟩
  | cons req reqs ih =>
    cases hr : a.place j req with
    | error e =>
      rw [placeAll_cons_error hr]
      exact ⟨[], by simp, .inr ⟨⟨e, rfl⟩, by simp [AllAcked, hr]⟩⟩
    | ok ack =>
      obtain ⟨acks, hacks, hcase⟩ := ih (j ++ [(req, .ok ack)])
      rw [placeAll_cons_ok hr, allAcked_cons_ok hr]
      refine ⟨ack :: acks, by simp [hacks], ?_⟩
      rcases hcase with ⟨hok, h⟩ | ⟨⟨e, herr⟩, h⟩
      · exact .inl ⟨by rw [hok]; rfl, h⟩
      · exact .inr ⟨⟨e, by rw [herr]; rfl⟩, h⟩

section route
variable {r : ExecutionRouter} {newV4 : Nat → Uuid} {j : Journal} {approved : ApprovedIntent}
  {bracket : OrderBracket} {adapter : ExecutionAdapter}

theorem route_of_split_error {e : ExecutionError} (h : splitIntent newV4 approved = .error e) :
    r.route newV4 j approved = (.error e, j) := by
  simp [ExecutionRouter.route, h]

theorem route_of_no_adapter (h : splitIntent newV4 approved = .ok bracket)
    (hl : r.adapters.lookup approved.intent.mode = none) :
    r.route newV4 j approved = (.error (.noAdapter approved.intent.mode), j) := by
  simp [ExecutionRouter.route, h, hl]

/-- `route` places the legs one after the other and returns what all of them returned, or the first
error. -/
theorem route_eq_placeAll (h : splitIntent newV4 approved = .ok bracket)
    (hl : r.adapters.lookup approved.intent.mode = some adapter) :
    (r.route newV4 j approved).2 = (placeAll adapter j bracket.legs).2 ∧
      delivered (r.route newV4 j approved).1 =
        match (placeAll adapter j bracket.legs).1 with
        | .ok acks => acks
        | .error _ => [] := by
  simp only [ExecutionRouter.route, h, hl, OrderBracket.legs, OrderBracket.exits,
    ExecutionAdapter.call]
  cases he : adapter.place j bracket.entry with
  | error e => simp [placeAll_cons_error he, delivered]
  | ok entry =>
    rw [placeAll_cons_ok he]
    generalize j ++ [(bracket.entry, Except.ok entry)] = j
    cases hs : adapter.place j bracket.stop with
    | error e => simp [placeAll_cons_error hs, hs, delivered, Except.map]
    | ok stop =>
      rw [placeAll_cons_ok hs]
      cases ht : placeAll adapter (j ++ [(bracket.stop, .ok stop)]) bracket.takeProfits with
      | mk result j' => cases result <;> simp [hs, ht, delivered, Except.map]

/-- **`route_delivers_iff`**: `route` hands over every ack it received exactly when nothing is
placed, the entry is refused, or every leg is acknowledged. -/
theorem route_delivers_iff (r : ExecutionRouter) (newV4 : Nat → Uuid) (j : Journal)
    (approved : ApprovedIntent) :
    Delivers r newV4 j approved ↔ Settles r newV4 j approved := by
  unfold Delivers Settles
  cases h : splitIntent newV4 approved with
  | error e => simp [route_of_split_error h, delivered]
  | ok bracket =>
    cases hl : r.adapters.lookup approved.intent.mode with
    | none => simp [route_of_no_adapter h hl, delivered]
    | some adapter =>
      obtain ⟨hj, hd⟩ := route_eq_placeAll (j := j) h hl
      obtain ⟨acks, hacks, hcase⟩ := placeAll_acked adapter bracket.legs j
      simp only [hj, hd, hacks, Except.ok.injEq, forall_eq', Option.mem_def, Option.some.injEq,
        List.append_cancel_left_eq]
      rcases hcase with ⟨hok, hall⟩ | ⟨⟨e, herr⟩, hall⟩
      · simp [hok, hall]
      · -- an error returns nothing, so nothing may have been accepted
        simp only [herr, hall, or_false]
        cases he : adapter.place j bracket.entry with
        | error e' =>
          rw [OrderBracket.legs, placeAll_cons_error he, acked_snoc_error] at hacks
          simp [List.self_eq_append_right.1 hacks]
        | ok ack =>
          have hne : acks ≠ [] := by
            rintro rfl
            obtain ⟨rest, hrest, -⟩ :=
              placeAll_acked adapter bracket.exits (j ++ [(bracket.entry, .ok ack)])
            rw [OrderBracket.legs, placeAll_cons_ok he, hrest] at hacks
            simp at hacks
          simp [hne]

end route

end Qtss.Execution
