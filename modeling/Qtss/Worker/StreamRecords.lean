import Qtss.Worker.BinanceUserStream
/-
# An order's row and its events

The worker places an order (`gateway.place_with_venue_response`) and stores its row when the reply is there
(`insert_submitted`, execution_bridge.rs:238-258). The user stream reports the same order from the moment the
venue has it, and needs the row: a fill is stored under the row's org id, and a status goes to the row.

Nothing is kept for later and nothing else inserts fills, so what is reported before the row is there is lost:
`recorded_iff` says when all of an order's executions are in `exchange_fills` and its status is the last one
reported.
-/

namespace Qtss.Worker.BinanceUserStream
open Storage Runs

/-- What an event says of an execution. -/
structure Execution where
  tradeId : Option ℤ
  qty : ℚ
  price : ℚ
deriving DecidableEq

/-- An event of an order. -/
structure OrderEvent (s : UserStream) (venueOrderId : ℤ) extends Message where
  status : String
  fields_eq : s.fields payload = some (venueOrderId, status)

/-- An execution with positive quantity and price. -/
def OrderEvent.execution {s : UserStream} {venueOrderId : ℤ} (e : OrderEvent s venueOrderId) : Option Execution :=
  (s.order e.payload).bind fun o => (lastFill o).map fun (q, p) => ⟨tradeId o, q, p⟩

def OrderEvent.orderStatus {s : UserStream} {venueOrderId : ℤ} (e : OrderEvent s venueOrderId) : OrderStatus :=
  normalizeBinanceOrderStatus e.status

/-- The events of an order as the venue sends them: no trade comes twice, and nothing after a final status. -/
structure VenueEvents {s : UserStream} {venueOrderId : ℤ} (events : List (OrderEvent s venueOrderId)) : Prop where
  trades : (events.filterMap (·.execution)).Pairwise fun a b => a.tradeId = none ∨ a.tradeId ≠ b.tradeId
  final_last : events.Pairwise fun e _ => e.orderStatus.isTerminal = false

/-- What happens to the order in the database. -/
inductive Op (s : UserStream) (venueOrderId : ℤ) where
  | insert
  | event (e : OrderEvent s venueOrderId)

def step {s : UserStream} {venueOrderId : ℤ} (o : NewOrder) (db : Db) : Op s venueOrderId → Db
  | .insert =>
    match insertSubmitted db.orders o with
    | none => db
    | some orders => { db with orders := orders }
  | .event e => handleEvent s o.userId db e.toMessage

/-- The events before the row is stored, the row, and the events after. -/
def history {s : UserStream} {venueOrderId : ℤ} (before after : List (OrderEvent s venueOrderId)) :
    List (Op s venueOrderId) :=
  before.map .event ++ .insert :: after.map .event

/-- The database knows nothing of the order yet. -/
structure Fresh (s : UserStream) (venueOrderId : ℤ) (o : NewOrder) (db : Db) : Prop where
  named : o.exchange = "binance" ∧ o.segment = s.segment ∧ o.venueOrderId = some venueOrderId
  client : ∀ r ∈ db.orders, r.userId = o.userId → r.clientOrderId ≠ o.clientOrderId
  orders : ∀ r ∈ db.orders, r.isVenueOrder o.userId "binance" s.segment venueOrderId = false
  fills : ∀ f ∈ db.fills, f.isOfOrder o.userId "binance" s.segment venueOrderId = false

/-! ## What is recorded -/

def ExchangeFillRow.columns (f : ExchangeFillRow) : Option ℤ × Option ℚ × Option ℚ :=
  (f.venueTradeId, f.fillQuantity, f.fillPrice)

def Execution.columns (x : Execution) : Option ℤ × Option ℚ × Option ℚ := (x.tradeId, some x.qty, some x.price)

/-- The fills of an order. -/
def fillsOf (s : UserStream) (userId : Uuid) (venueOrderId : ℤ) (db : Db) : List (Option ℤ × Option ℚ × Option ℚ) :=
  (db.fills.filter (·.isOfOrder userId "binance" s.segment venueOrderId)).map ExchangeFillRow.columns

/-- The row of an order. -/
def rowOf (s : UserStream) (userId : Uuid) (venueOrderId : ℤ) (db : Db) : Option ExchangeOrderRow :=
  db.orders.find? (·.isVenueOrder userId "binance" s.segment venueOrderId)

/-- One fill for each execution and no other, and the last status. -/
structure Recorded {s : UserStream} {venueOrderId : ℤ} (userId : Uuid) (events : List (OrderEvent s venueOrderId))
    (db : Db) : Prop where
  fills : fillsOf s userId venueOrderId db = (events.filterMap (·.execution)).map (·.columns)
  status : ∀ e, events.getLast? = some e → (rowOf s userId venueOrderId db).map (·.status) = some e.orderStatus

section
variable {s : UserStream} {venueOrderId : ℤ} {userId : Uuid} {db : Db} {e : OrderEvent s venueOrderId}

/-! ## One event -/

theorem rowOf_handleEvent (m : Message) : rowOf s userId venueOrderId (handleEvent s userId db m) =
    (rowOf s userId venueOrderId db).map (rowEvent s userId · m) := by
  unfold rowOf
  rw [handleEvent_orders, List.find?_map]
  congr 2
  funext r
  exact rowEvent_isVenueOrder r "binance" s.segment

/-- A row that is not final takes the status of the event. -/
theorem rowEvent_status {r : ExchangeOrderRow} (hr : r.isVenueOrder userId "binance" s.segment venueOrderId = true)
    (hopen : r.status.isTerminal = false) : (rowEvent s userId r e.toMessage).status = e.orderStatus := by
  simp [rowEvent, e.fields_eq, hr, hopen, setVenueStatus, OrderEvent.orderStatus]

theorem fillsOf_append (f : ExchangeFillRow) (h : f.isOfOrder userId "binance" s.segment venueOrderId = true) :
    fillsOf s userId venueOrderId { db with fills := db.fills ++ [f] } =
      fillsOf s userId venueOrderId db ++ [ExchangeFillRow.columns f] := by
  simp [fillsOf, List.filter_append, h]

/-- **One event of a stored order**: its execution, unless that is there already, is one more fill. -/
theorem fillsOf_handleEvent (hrow : (rowOf s userId venueOrderId db).isSome)
    (hnew : ∀ x, e.execution = some x → ∀ c ∈ fillsOf s userId venueOrderId db, x.tradeId = none ∨ x.tradeId ≠ c.1) :
    fillsOf s userId venueOrderId (handleEvent s userId db e.toMessage) =
      fillsOf s userId venueOrderId db ++ (e.execution.map (·.columns)).toList := by
  have hfills : (handleEvent s userId db e.toMessage).fills =
      (recordFill s userId venueOrderId db e.toMessage).fills := by
    simp only [handleEvent, e.fields_eq]
  have hfillsOf : fillsOf s userId venueOrderId (handleEvent s userId db e.toMessage) =
      fillsOf s userId venueOrderId (recordFill s userId venueOrderId db e.toMessage) := by
    simp only [fillsOf, hfills]
  obtain ⟨r, hr⟩ := Option.isSome_iff_exists.1 hrow
  have horg : fetchOrgIdForVenueOrder db.orders userId "binance" s.segment venueOrderId = some r.orgId :=
    congrArg (Option.map ExchangeOrderRow.orgId) hr
  rw [hfillsOf]
  unfold recordFill OrderEvent.execution at *
  cases horder : s.order e.payload with
  | none => simp
  | some o =>
    cases hlast : lastFill o with
    | none => simp [hlast]
    | some qp =>
      obtain ⟨q, p⟩ := qp
      let f := fillRow s r.orgId userId venueOrderId o q p e.toMessage
      have hf : f.isOfOrder userId "binance" s.segment venueOrderId = true := by
        simp [f, fillRow, ExchangeFillRow.isOfOrder]
      have hfree : conflicts db.fills f = false := by
        refine List.any_eq_false.2 fun g hg => ?_
        rw [Bool.and_eq_true, Bool.and_eq_true]
        rintro ⟨horder', hsome, heq⟩
        have hmem : ExchangeFillRow.columns g ∈ fillsOf s userId venueOrderId db :=
          List.mem_map_of_mem (List.mem_filter.2 ⟨hg, horder'⟩)
        rcases hnew ⟨tradeId o, q, p⟩ (by simp [horder, hlast]) _ hmem with hnone | hne
        · have hnone : f.venueTradeId = none := hnone
          simp [hnone] at hsome
        · exact hne (eq_of_beq heq).symm
      have hinsert : (insertIfAbsent db.fills f).1 = db.fills ++ [f] := by
        simp [insertIfAbsent, hfree]
      simp only [hlast, horg, Option.bind_some, Option.map_some, Option.toList_some]
      rw [hinsert, fillsOf_append f hf]
      rfl

/-! ## All events after the row -/

/-- The row of a stored order stays. -/
theorem rowOf_events (o : NewOrder) (events : List (OrderEvent s venueOrderId)) (db : Db) :
    rowOf s o.userId venueOrderId (run (step o) db (events.map .event)) =
      (rowOf s o.userId venueOrderId db).map fun r =>
        run (fun r (e : OrderEvent s venueOrderId) => rowEvent s o.userId r e.toMessage) r events := by
  induction events generalizing db with
  | nil => simp
  | cons e events ih =>
    rw [List.map_cons, run_cons, ih, step, rowOf_handleEvent, Option.map_map]
    rfl

/-- Once the row is there, every execution is stored. -/
theorem fillsOf_events {o : NewOrder} {events : List (OrderEvent s venueOrderId)}
    (hrow : (rowOf s o.userId venueOrderId db).isSome)
    (hnew : ∀ x ∈ events.filterMap (·.execution), ∀ c ∈ fillsOf s o.userId venueOrderId db,
      x.tradeId = none ∨ x.tradeId ≠ c.1)
    (htrades : (events.filterMap (·.execution)).Pairwise fun a b => a.tradeId = none ∨ a.tradeId ≠ b.tradeId) :
    fillsOf s o.userId venueOrderId (run (step o) db (events.map .event)) =
      fillsOf s o.userId venueOrderId db ++ (events.filterMap (·.execution)).map (·.columns) := by
  induction events generalizing db with
  | nil => simp
  | cons e events ih =>
    have hstep := fillsOf_handleEvent (e := e) hrow fun x hx => hnew x (by simp [hx])
    have hrow' : (rowOf s o.userId venueOrderId (handleEvent s o.userId db e.toMessage)).isSome := by
      rw [rowOf_handleEvent, Option.isSome_map]
      exact hrow
    rw [List.map_cons, run_cons, step]
    cases hx : e.execution with
    | none =>
      rw [List.filterMap_cons_none hx] at hnew htrades ⊢
      rw [hx, Option.map_none, Option.toList_none, List.append_nil] at hstep
      rw [← hstep]
      exact ih hrow' (by rw [hstep]; exact hnew) htrades
    | some x =>
      rw [List.filterMap_cons_some hx] at hnew htrades ⊢
      obtain ⟨hfirst, hrest⟩ := List.pairwise_cons.1 htrades
      rw [hx, Option.map_some, Option.toList_some] at hstep
      rw [ih hrow' ?_ hrest, hstep, List.append_assoc, List.map_cons, List.singleton_append]
      intro y hy c hc
      rw [hstep, List.mem_append, List.mem_singleton] at hc
      rcases hc with hc | rfl
      · exact hnew y (List.mem_cons_of_mem _ hy) c hc
      · rcases hfirst y hy with hnone | hne
        · by_cases hy' : y.tradeId = none
          · exact .inl hy'
          · exact .inr fun heq => hy' (heq.trans hnone)
        · exact .inr fun heq => hne heq.symm

/-- The last event gives the row its status. -/
theorem status_events {events : List (OrderEvent s venueOrderId)} {r : ExchangeOrderRow}
    (hr : r.isVenueOrder userId "binance" s.segment venueOrderId = true) (hopen : r.status.isTerminal = false)
    (hlast : events.Pairwise fun e _ => e.orderStatus.isTerminal = false) (h : events.getLast? = some e) :
    (run (fun r (e : OrderEvent s venueOrderId) => rowEvent s userId r e.toMessage) r events).status =
      e.orderStatus := by
  induction events generalizing r with
  | nil => cases h
  | cons a events ih =>
    obtain ⟨ha, hevents⟩ := List.pairwise_cons.1 hlast
    rw [run_cons]
    cases events with
    | nil =>
      obtain rfl : a = e := by simpa using h
      exact rowEvent_status hr hopen
    | cons b events =>
      rw [List.getLast?_cons_cons] at h
      refine ih ?_ ?_ hevents h
      · rw [rowEvent_isVenueOrder]
        exact hr
      · rw [rowEvent_status hr hopen]
        exact ha b List.mem_cons_self

/-! ## The whole order -/

variable {o : NewOrder} {before after : List (OrderEvent s venueOrderId)}

/-- Before its row is there, the events of an order leave nothing. -/
theorem run_before (h : Fresh s venueOrderId o db) (before : List (OrderEvent s venueOrderId)) :
    run (step o) db (before.map .event) = db := by
  induction before with
  | nil => rfl
  | cons e before ih =>
    rw [List.map_cons, run_cons, step, handleEvent_unknown e.fields_eq h.orders]
    exact ih

theorem step_insert (h : Fresh s venueOrderId o db) :
    step o db (.insert : Op s venueOrderId) = { db with orders := db.orders ++ [o.row] } := by
  have hfree : (db.orders.any fun r => r.userId == o.userId && r.clientOrderId == o.clientOrderId) = false := by
    refine List.any_eq_false.2 fun r hr => ?_
    rw [Bool.and_eq_true]
    rintro ⟨huser, hclient⟩
    exact h.client r hr (eq_of_beq huser) (eq_of_beq hclient)
  simp [step, insertSubmitted, hfree]

theorem row_isVenueOrder (h : Fresh s venueOrderId o db) :
    o.row.isVenueOrder o.userId "binance" s.segment venueOrderId = true := by
  obtain ⟨hexchange, hsegment, hid⟩ := h.named
  simp [ExchangeOrderRow.isVenueOrder, NewOrder.row, hexchange, hsegment, hid]

theorem rowOf_inserted (h : Fresh s venueOrderId o db) :
    rowOf s o.userId venueOrderId { db with orders := db.orders ++ [o.row] } = some o.row := by
  have hnone : db.orders.find? (·.isVenueOrder o.userId "binance" s.segment venueOrderId) = none :=
    List.find?_eq_none.2 fun r hr => by simp [h.orders r hr]
  simp [rowOf, List.find?_append, hnone, row_isVenueOrder h]

theorem fillsOf_fresh (h : Fresh s venueOrderId o db) (orders : OrderTable) :
    fillsOf s o.userId venueOrderId { db with orders := orders } = [] := by
  have hnone : db.fills.filter (·.isOfOrder o.userId "binance" s.segment venueOrderId) = [] :=
    List.filter_eq_nil_iff.2 fun f hf => by simp [h.fills f hf]
  simp [fillsOf, hnone]

/-- What a whole history leaves: the executions after the row, and the status of the last event after it. -/
theorem run_history (h : Fresh s venueOrderId o db) (hevents : VenueEvents (before ++ after)) :
    let db' := run (step o) db (history before after)
    fillsOf s o.userId venueOrderId db' = (after.filterMap (·.execution)).map (·.columns) ∧
      (rowOf s o.userId venueOrderId db').map (·.status) =
        some ((after.getLast?.map (·.orderStatus)).getD .submitted) := by
  intro db'
  let inserted : Db := { db with orders := db.orders ++ [o.row] }
  have hrun : db' = run (step o) inserted (after.map .event) := by
    simp only [db', history]
    rw [run_append, run_before h, run_cons, step_insert h]
  have hrow : rowOf s o.userId venueOrderId inserted = some o.row := rowOf_inserted h
  have hfills : fillsOf s o.userId venueOrderId inserted = [] := fillsOf_fresh h _
  have htrades := hevents.trades
  rw [List.filterMap_append] at htrades
  constructor
  · rw [hrun, fillsOf_events (by rw [hrow]; rfl) (by rw [hfills]; simp) (List.pairwise_append.1 htrades).2.1,
      hfills, List.nil_append]
  · rw [hrun, rowOf_events, hrow, Option.map_some, Option.map_some]
    cases hlast : after.getLast? with
    | none =>
      rw [List.getLast?_eq_none_iff.1 hlast]
      rfl
    | some e =>
      have hstatus := status_events (row_isVenueOrder h) rfl (List.pairwise_append.1 hevents.final_last).2.1 hlast
      rw [hstatus, Option.map_some, Option.getD_some]

end

theorem orderStatus_ne_submitted {s : UserStream} {venueOrderId : ℤ} (e : OrderEvent s venueOrderId) :
    e.orderStatus ≠ .submitted := by
  unfold OrderEvent.orderStatus normalizeBinanceOrderStatus
  split <;> decide

/-- **An order and its events**: every execution is one fill and the row has the last status, exactly when no
execution is reported before the row is stored and the last event is reported after it. -/
theorem recorded_iff {s : UserStream} {venueOrderId : ℤ} (o : NewOrder) (db : Db) (h : Fresh s venueOrderId o db)
    (before after : List (OrderEvent s venueOrderId)) (hevents : VenueEvents (before ++ after)) :
    Recorded o.userId (before ++ after) (run (step o) db (history before after)) ↔
      (∀ e ∈ before, e.execution = none) ∧ (before = [] ∨ after ≠ []) := by
  obtain ⟨hfills, hstatus⟩ := run_history h hevents
  constructor
  · intro hrecorded
    constructor
    · -- as many fills as executions
      have hall := hrecorded.fills
      rw [hfills, List.filterMap_append, List.map_append] at hall
      have hlength := congrArg List.length hall
      rw [List.length_append, List.length_map, List.length_map] at hlength
      have hnil : before.filterMap (·.execution) = [] := List.length_eq_zero_iff.1 (by omega)
      exact List.filterMap_eq_nil_iff.1 hnil
    · by_contra hnot
      obtain ⟨hbefore, hafter⟩ := not_or.1 hnot
      rw [not_not] at hafter
      subst hafter
      rw [List.append_nil] at hrecorded
      have hlast := hrecorded.status _ (List.getLast?_eq_some_getLast hbefore)
      rw [hstatus] at hlast
      exact orderStatus_ne_submitted _ (Option.some.inj hlast).symm
  · rintro ⟨hexecutions, hlast⟩
    have hnil : before.filterMap (·.execution) = [] := List.filterMap_eq_nil_iff.2 hexecutions
    refine ⟨?_, ?_⟩
    · rw [hfills, List.filterMap_append, hnil, List.nil_append]
    · intro e he
      have hafter : after.getLast? = some e := by
        rcases hlast with rfl | hne
        · exact he
        · rwa [List.getLast?_append_of_ne_nil _ hne] at he
      rw [hstatus, hafter, Option.map_some, Option.getD_some]

/-! ## A market order filled at once -/

def placed : NewOrder where
  id := 1
  orgId := 2
  userId := 3
  exchange := "binance"
  segment := "spot"
  symbol := "BTCUSDT"
  clientOrderId := 4
  intent := .obj [("side", .str "buy")]
  venueOrderId := some 7
  venueResponse := none
  now := 0

def report (status qty price : String) : Json :=
  .obj [("e", .str "executionReport"), ("s", .str "BTCUSDT"), ("X", .str status), ("i", .int 7), ("l", .str qty),
    ("L", .str price), ("t", .int 9)]

def newEvent : OrderEvent .spot 7 := ⟨⟨report "NEW" "0" "0", 5, 1⟩, "NEW", by decide +kernel⟩

def filledEvent : OrderEvent .spot 7 := ⟨⟨report "FILLED" "1" "100", 6, 1⟩, "FILLED", by decide +kernel⟩

/-- The fill is reported while the reply to the order is on its way: no fill is stored, and the order stays
submitted. -/
theorem early_event_is_lost :
    let db := run (step placed) ⟨[], []⟩ (history [newEvent, filledEvent] [])
    filledEvent.execution = some ⟨some 9, 1, 100⟩ ∧ fillsOf .spot 3 7 db = [] ∧
      (rowOf .spot 3 7 db).map (·.status) = some .submitted := by
  decide +kernel

theorem placed_fresh : Fresh .spot 7 placed ⟨[], []⟩ :=
  ⟨⟨rfl, rfl, rfl⟩, by simp, by simp, by simp⟩

/-- A fill that comes after the row is stored. -/
theorem late_event_is_recorded :
    Recorded 3 [newEvent, filledEvent] (run (step placed) ⟨[], []⟩ (history [newEvent] [filledEvent])) :=
  (recorded_iff placed ⟨[], []⟩ placed_fresh [newEvent] [filledEvent]
    ⟨by decide +kernel, by decide +kernel⟩).2 ⟨by decide +kernel, .inr (by simp)⟩

end Qtss.Worker.BinanceUserStream
