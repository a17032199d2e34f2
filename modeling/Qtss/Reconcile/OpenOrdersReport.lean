import Mathlib.Data.Finset.Card
import Mathlib.Data.Set.Card
import Qtss.Reconcile.OpenOrdersPatch
/-
# Reports on open orders (`qtss-execution/src/reconcile.rs`)

| here | there |
| --- | --- |
| `ExchangeOrderVenueSnapshot` | reconcile.rs:12, its status a text; `ofRow` is what the worker fills it with |
| `parseBinanceOpenOrderIds` | :37, with the texts of its errors |
| `reconcileReport` | what `reconcile_binance_spot_open_orders` (:61) and its sibling for futures (:102) share: all but the venue and the note of a clean report |
| `venueOrderIdsSubmittedNotOnOpenList` | :137 |

The three walk the same rows, each with a copy of the same loop. A report depends on the ids that the reply lists and
not on how often or in which order it lists them (`parse_arr`).
-/

namespace Qtss.Reconcile.OpenOrders.Report
open Execution.Dry (ExecutionError)
open Storage

structure ExchangeOrderVenueSnapshot where
  venueOrderId : ℤ
  status : String
deriving DecidableEq

/-- The text in the column `status`. -/
def statusText : OrderStatus → String
  | .submitted => "submitted"
  | .opened => "open"
  | .partiallyFilled => "partially_filled"
  | .filled => "filled"
  | .canceled => "canceled"
  | .rejected => "rejected"
  | .expired => "expired"
  | .reconciledNotOpen => "reconciled_not_open"

def ofRow (s : OpenOrders.ExchangeOrderVenueSnapshot) : ExchangeOrderVenueSnapshot :=
  ⟨s.venueOrderId, statusText s.status⟩

structure ReconcileReport where
  venue : String
  checkedRemoteOrders : ℕ
  checkedLocalOrders : ℕ
  mismatches : ℕ
  localSubmittedNotOpenOnVenue : ℕ
  remoteOpenUnknownLocally : ℕ
  notes : String
  statusUpdatesApplied : Option ℕ
deriving DecidableEq

def parseOrderId (o : Json) : Except ExecutionError ℤ :=
  match openOrderId o with
  | some id => .ok id
  | none => .error (.other "openOrders: orderId eksik veya geçersiz")

/-- reconcile.rs:37. -/
def parseBinanceOpenOrderIds (remote : Json) : Except ExecutionError (List ℤ) :=
  match remote.asArray with
  | some arr => arr.mapM parseOrderId
  | none => .error (.other "openOrders: JSON dizi değil")

/-- `submitted`, and not among the remote ids. -/
def ExchangeOrderVenueSnapshot.notOpen (remoteIds : List ℤ) (s : ExchangeOrderVenueSnapshot) : Bool :=
  s.status = "submitted" ∧ s.venueOrderId ∉ remoteIds.toFinset

def reportNotes (consistent : String) (localSubmittedNotOpen remoteUnknown : ℕ) : String :=
  if localSubmittedNotOpen + remoteUnknown = 0 then consistent
  else "Dikkat: " ++ toString localSubmittedNotOpen ++ " yerel submitted borsada açık değil; "
    ++ toString remoteUnknown ++ " borsa açık emri yerelde venue_order_id ile bulunamadı."

def reconcileReport (venue consistent : String) (remoteOpen : Json) (localRows : List ExchangeOrderVenueSnapshot) :
    Except ExecutionError ReconcileReport := do
  let remoteIds ← parseBinanceOpenOrderIds remoteOpen
  let remoteSet := remoteIds.toFinset
  let localVenueSet := (localRows.map (·.venueOrderId)).toFinset
  let localSubmittedNotOpen := localRows.countP (·.notOpen remoteIds)
  let remoteUnknown := (remoteSet.filter (· ∉ localVenueSet)).card
  return {
    venue := venue
    checkedRemoteOrders := remoteSet.card
    checkedLocalOrders := localRows.length
    mismatches := localSubmittedNotOpen + remoteUnknown
    localSubmittedNotOpenOnVenue := localSubmittedNotOpen
    remoteOpenUnknownLocally := remoteUnknown
    notes := reportNotes consistent localSubmittedNotOpen remoteUnknown
    statusUpdatesApplied := none }

/-- reconcile.rs:61. -/
def reconcileBinanceSpotOpenOrders (remoteOpen : Json) (localRows : List ExchangeOrderVenueSnapshot) :
    Except ExecutionError ReconcileReport :=
  reconcileReport "binance_spot"
    "Spot açık emir listesi ile yerel venue_order_id eşlemesi tutarlı (submitted ve bilinmeyen uzaktan emir yok)."
    remoteOpen localRows

/-- reconcile.rs:102. -/
def reconcileBinanceFuturesOpenOrders (remoteOpen : Json) (localRows : List ExchangeOrderVenueSnapshot) :
    Except ExecutionError ReconcileReport :=
  reconcileReport "binance_futures"
    "Futures açık emir listesi ile yerel venue_order_id eşlemesi tutarlı (submitted ve bilinmeyen uzaktan emir yok)."
    remoteOpen localRows

/-- reconcile.rs:137. -/
def venueOrderIdsSubmittedNotOnOpenList (remoteOpen : Json) (localRows : List ExchangeOrderVenueSnapshot) :
    Except ExecutionError (List ℤ) := do
  let remoteIds ← parseBinanceOpenOrderIds remoteOpen
  return (localRows.filter (·.notOpen remoteIds)).map (·.venueOrderId)

/-! ## What a reply lists -/

/-- The ids a reply lists. -/
def remoteIds (remote : Json) : Set ℤ :=
  {id | ∃ rows, remote.asArray = some rows ∧ ∃ row ∈ rows, openOrderId row = some id}

variable {remote : Json} {localRows : List ExchangeOrderVenueSnapshot} {ids : List ℤ}

theorem parseOrderId_ok_iff {o : Json} {id : ℤ} : parseOrderId o = .ok id ↔ openOrderId o = some id := by
  unfold parseOrderId
  cases openOrderId o <;> simp

/-- A reply is read when each of its rows has an id. -/
theorem mapM_parseOrderId (rows : List Json) :
    rows.mapM parseOrderId = if ∀ row ∈ rows, (openOrderId row).isSome then .ok (rows.filterMap openOrderId)
      else .error (.other "openOrders: orderId eksik veya geçersiz") := by
  induction rows with
  | nil => rfl
  | cons row rows ih =>
    rw [List.mapM_cons, ih]
    cases hid : openOrderId row with
    | none => simp [parseOrderId, hid, bind, Except.bind]
    | some id =>
      rw [parseOrderId_ok_iff.2 hid, List.filterMap_cons, hid]
      simp only [List.forall_mem_cons, hid, Option.isSome_some, true_and]
      split <;> rfl

theorem parse_arr (rows : List Json) :
    parseBinanceOpenOrderIds (.arr rows) =
      if ∀ row ∈ rows, (openOrderId row).isSome then .ok (rows.filterMap openOrderId)
      else .error (.other "openOrders: orderId eksik veya geçersiz") :=
  mapM_parseOrderId rows

theorem mem_of_parse (h : parseBinanceOpenOrderIds remote = .ok ids) (id : ℤ) : id ∈ ids ↔ id ∈ remoteIds remote := by
  unfold parseBinanceOpenOrderIds at h
  cases harr : remote.asArray with
  | none => simp [harr] at h
  | some rows =>
    simp only [harr, mapM_parseOrderId] at h
    split at h
    · rename_i hall
      obtain rfl := Except.ok.inj h
      simp [remoteIds, harr]
    · cases h

/-! ## What a report says -/

/-- The counts of a report. -/
def ReconcileReport.counts (r : ReconcileReport) : ℕ × ℕ × ℕ × ℕ × ℕ :=
  (r.checkedRemoteOrders, r.checkedLocalOrders, r.mismatches, r.localSubmittedNotOpenOnVenue,
    r.remoteOpenUnknownLocally)

/-- The remote ids that no local row has. -/
def unknownIds (remote : Json) (localRows : List ExchangeOrderVenueSnapshot) : Set ℤ :=
  {id ∈ remoteIds remote | ∀ s ∈ localRows, s.venueOrderId ≠ id}

section
variable {venue consistent : String} {e : ExecutionError}

theorem card_unknown (hids : parseBinanceOpenOrderIds remote = .ok ids) :
    (ids.toFinset.filter (· ∉ (localRows.map (·.venueOrderId)).toFinset)).card =
      (unknownIds remote localRows).ncard := by
  rw [← Set.ncard_coe_finset]
  congr 1
  ext id
  simp [unknownIds, mem_of_parse hids]

theorem card_remote (hids : parseBinanceOpenOrderIds remote = .ok ids) :
    ids.toFinset.card = (remoteIds remote).ncard := by
  rw [← Set.ncard_coe_finset]
  congr 1
  ext id
  simp [mem_of_parse hids]

theorem reconcileReport_error (h : parseBinanceOpenOrderIds remote = .error e) :
    reconcileReport venue consistent remote localRows = .error e := by
  rw [reconcileReport, h]
  rfl

theorem venueOrderIds_error (h : parseBinanceOpenOrderIds remote = .error e) :
    venueOrderIdsSubmittedNotOnOpenList remote localRows = .error e := by
  rw [venueOrderIdsSubmittedNotOnOpenList, h]
  rfl

theorem venueOrderIds_ok (hids : parseBinanceOpenOrderIds remote = .ok ids) :
    venueOrderIdsSubmittedNotOnOpenList remote localRows =
      .ok ((localRows.filter (·.notOpen ids)).map (·.venueOrderId)) := by
  rw [venueOrderIdsSubmittedNotOnOpenList, hids]
  rfl

/-- The report of a reply that is read. -/
theorem reconcileReport_ok (hids : parseBinanceOpenOrderIds remote = .ok ids) :
    reconcileReport venue consistent remote localRows = .ok
      { venue := venue
        checkedRemoteOrders := (remoteIds remote).ncard
        checkedLocalOrders := localRows.length
        mismatches := localRows.countP (·.notOpen ids) + (unknownIds remote localRows).ncard
        localSubmittedNotOpenOnVenue := localRows.countP (·.notOpen ids)
        remoteOpenUnknownLocally := (unknownIds remote localRows).ncard
        notes := reportNotes consistent (localRows.countP (·.notOpen ids)) (unknownIds remote localRows).ncard
        statusUpdatesApplied := none } := by
  rw [← card_unknown hids, ← card_remote hids, reconcileReport, hids]
  rfl

theorem unknown_eq_zero_iff (hids : parseBinanceOpenOrderIds remote = .ok ids) :
    (unknownIds remote localRows).ncard = 0 ↔
      ∀ id ∈ remoteIds remote, ∃ s ∈ localRows, s.venueOrderId = id := by
  have hfinite : (unknownIds remote localRows).Finite := by
    apply (ids.toFinset.finite_toSet).subset
    intro id hid
    exact List.mem_toFinset.2 ((mem_of_parse hids id).2 hid.1)
  rw [Set.ncard_eq_zero hfinite, Set.eq_empty_iff_forall_notMem]
  refine forall_congr' fun id => ?_
  simp only [unknownIds, Set.mem_ofPred_eq, not_and, not_forall, not_not, exists_prop]

end

/-! ## The same rows in another order -/

section
variable {rows rows' : List Json}

theorem remoteIds_congr (h : ∀ row, row ∈ rows ↔ row ∈ rows') : remoteIds (.arr rows) = remoteIds (.arr rows') := by
  ext id
  simp [remoteIds, Json.asArray, h]

/-- Both replies are read, to the same ids, or both are rejected for the same reason. -/
theorem parse_congr (h : ∀ row, row ∈ rows ↔ row ∈ rows') :
    (∃ ids ids', parseBinanceOpenOrderIds (.arr rows) = .ok ids ∧ parseBinanceOpenOrderIds (.arr rows') = .ok ids' ∧
      ∀ id, id ∈ ids ↔ id ∈ ids') ∨
    ∃ e, parseBinanceOpenOrderIds (.arr rows) = .error e ∧ parseBinanceOpenOrderIds (.arr rows') = .error e := by
  rw [parse_arr, parse_arr]
  by_cases hall : ∀ row ∈ rows, (openOrderId row).isSome
  · have hall' : ∀ row ∈ rows', (openOrderId row).isSome := fun row hrow => hall row ((h row).2 hrow)
    rw [if_pos hall, if_pos hall']
    refine .inl ⟨_, _, rfl, rfl, fun id => ?_⟩
    simp only [List.mem_filterMap, h]
  · have hall' : ¬ ∀ row ∈ rows', (openOrderId row).isSome :=
      fun hall' => hall fun row hrow => hall' row ((h row).1 hrow)
    rw [if_neg hall, if_neg hall']
    exact .inr ⟨_, rfl, rfl⟩

theorem notOpen_congr {ids ids' : List ℤ} (h : ∀ id, id ∈ ids ↔ id ∈ ids') (s : ExchangeOrderVenueSnapshot) :
    s.notOpen ids = s.notOpen ids' := by
  simp only [ExchangeOrderVenueSnapshot.notOpen, List.mem_toFinset, h]

theorem reconcileReport_congr (venue consistent : String) (h : ∀ row, row ∈ rows ↔ row ∈ rows') :
    reconcileReport venue consistent (.arr rows) localRows =
      reconcileReport venue consistent (.arr rows') localRows := by
  obtain ⟨ids, ids', hids, hids', hsame⟩ | ⟨e, he, he'⟩ := parse_congr h
  · have hcount : localRows.countP (·.notOpen ids) = localRows.countP (·.notOpen ids') := by
      simp only [notOpen_congr hsame]
    have hunknown : unknownIds (.arr rows) localRows = unknownIds (.arr rows') localRows := by
      simp only [unknownIds, remoteIds_congr h]
    rw [reconcileReport_ok hids, reconcileReport_ok hids', hcount, hunknown, remoteIds_congr h]
  · rw [reconcileReport_error he, reconcileReport_error he']

theorem venueOrderIds_congr (h : ∀ row, row ∈ rows ↔ row ∈ rows') :
    venueOrderIdsSubmittedNotOnOpenList (.arr rows) localRows =
      venueOrderIdsSubmittedNotOnOpenList (.arr rows') localRows := by
  obtain ⟨ids, ids', hids, hids', hsame⟩ | ⟨e, he, he'⟩ := parse_congr h
  · simp only [venueOrderIds_ok hids, venueOrderIds_ok hids', notOpen_congr hsame]
  · rw [venueOrderIds_error he, venueOrderIds_error he']

end

/-! ## The three together -/

/-- One reply and one list of rows: the three fail together, and else the reports have the same counts, count the
patch list and the unknown ids, and report no mismatch exactly where there is nothing to patch and nothing unknown. -/
def Agree (remote : Json) (localRows : List ExchangeOrderVenueSnapshot) : Prop :=
  (∃ e, reconcileBinanceSpotOpenOrders remote localRows = .error e ∧
    reconcileBinanceFuturesOpenOrders remote localRows = .error e ∧
    venueOrderIdsSubmittedNotOnOpenList remote localRows = .error e) ∨
  ∃ spot futures listed, reconcileBinanceSpotOpenOrders remote localRows = .ok spot ∧
    reconcileBinanceFuturesOpenOrders remote localRows = .ok futures ∧
    venueOrderIdsSubmittedNotOnOpenList remote localRows = .ok listed ∧
    spot.counts = futures.counts ∧ spot.localSubmittedNotOpenOnVenue = listed.length ∧
    spot.remoteOpenUnknownLocally = (unknownIds remote localRows).ncard ∧
    (spot.mismatches = 0 ↔ listed = [] ∧ ∀ id ∈ remoteIds remote, ∃ s ∈ localRows, s.venueOrderId = id)

/-- **Three copies of one diff agree**, and none sees the order of the reply or how often it lists a row. -/
theorem reports_and_patch_list_agree (localRows : List ExchangeOrderVenueSnapshot) :
    (∀ remote, Agree remote localRows) ∧
    ∀ rows rows' : List Json, (∀ row, row ∈ rows ↔ row ∈ rows') →
      reconcileBinanceSpotOpenOrders (.arr rows) localRows = reconcileBinanceSpotOpenOrders (.arr rows') localRows ∧
      reconcileBinanceFuturesOpenOrders (.arr rows) localRows =
        reconcileBinanceFuturesOpenOrders (.arr rows') localRows ∧
      venueOrderIdsSubmittedNotOnOpenList (.arr rows) localRows =
        venueOrderIdsSubmittedNotOnOpenList (.arr rows') localRows := by
  constructor
  · intro remote
    cases hids : parseBinanceOpenOrderIds remote with
    | error e => exact .inl ⟨e, reconcileReport_error hids, reconcileReport_error hids, venueOrderIds_error hids⟩
    | ok ids =>
      refine .inr ⟨_, _, _, reconcileReport_ok hids, reconcileReport_ok hids, venueOrderIds_ok hids, rfl, ?_, rfl, ?_⟩
      · rw [List.length_map, List.countP_eq_length_filter]
      · rw [Nat.add_eq_zero_iff, unknown_eq_zero_iff hids, List.map_eq_nil_iff, List.countP_eq_length_filter,
          List.length_eq_zero_iff]
  · exact fun rows rows' h => ⟨reconcileReport_congr _ _ h, reconcileReport_congr _ _ h, venueOrderIds_congr h⟩

theorem repeated_row_changes_nothing :
    let row := Json.obj [("orderId", .int 100)]
    reconcileBinanceSpotOpenOrders (.arr [row, row]) [⟨200, "submitted"⟩] =
      reconcileBinanceSpotOpenOrders (.arr [row]) [⟨200, "submitted"⟩] :=
  ((reports_and_patch_list_agree [⟨200, "submitted"⟩]).2 _ _ (by simp)).1

/-! ## What the worker patches -/

theorem statusText_eq_submitted_iff (status : OrderStatus) : statusText status = "submitted" ↔ status = .submitted := by
  cases status <;> simp [statusText]

theorem parse_toOption (remote : Json) :
    (parseBinanceOpenOrderIds remote).toOption = OpenOrders.parseBinanceOpenOrderIds remote := by
  unfold parseBinanceOpenOrderIds OpenOrders.parseBinanceOpenOrderIds
  cases remote.asArray with
  | none => rfl
  | some arr =>
    simp only [Option.bind_eq_bind, Option.bind_some]
    induction arr with
    | nil => rfl
    | cons row rows ih =>
      rw [List.mapM_cons, List.mapM_cons, ← ih]
      cases hid : openOrderId row with
      | none => simp [parseOrderId, hid, bind, Except.bind, Except.toOption]
      | some id =>
        rw [parseOrderId_ok_iff.2 hid]
        cases rows.mapM parseOrderId <;> rfl

/-- The patch list of the worker is the third function on the rows of its table. -/
theorem venueOrderIds_ofRow (remote : Json) (rows : List OpenOrders.ExchangeOrderVenueSnapshot) :
    (venueOrderIdsSubmittedNotOnOpenList remote (rows.map ofRow)).toOption =
      OpenOrders.venueOrderIdsSubmittedNotOnOpenList remote rows := by
  rw [OpenOrders.venueOrderIdsSubmittedNotOnOpenList, ← parse_toOption]
  cases hids : parseBinanceOpenOrderIds remote with
  | error e => rw [venueOrderIds_error hids]; rfl
  | ok ids =>
    rw [venueOrderIds_ok hids]
    have hrow : ∀ s : OpenOrders.ExchangeOrderVenueSnapshot,
        (ofRow s).notOpen ids = decide (s.status = .submitted ∧ s.venueOrderId ∉ ids) := by
      intro s
      simp [ExchangeOrderVenueSnapshot.notOpen, ofRow, statusText_eq_submitted_iff]
    simp only [Except.toOption, Option.bind_eq_bind, Option.bind_some, List.filter_map, List.map_map,
      Function.comp_def, hrow]
    rfl

end Qtss.Reconcile.OpenOrders.Report
