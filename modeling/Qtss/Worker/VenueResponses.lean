import Qtss.Storage.FillLongEstimate
import Qtss.Storage.PnlRollups
import Qtss.Worker.BinanceUserStream
/-
# Two shapes in one column

The column `venue_response` is written by the REST path (the reply to an order or to an order query) and by the
user streams (the message as it came), and read by `parse_executed_qty` and `parse_avg_price`
(fill_long_estimate.rs:46, :50; position_manager.rs repeats them) and by `parse_binance_order` (pnl.rs:391).
The readers know the REST names. The streams abbreviate every name to one letter or two (`Update`), so a row that an
event reaches has nothing executed for any of them (`survives_iff`).
-/

namespace Qtss.Worker.BinanceUserStream
open Storage Storage.FillLongEstimate Storage.Pnl Runs

/-- A message to one of the streams of a user. The names in a payload of the streams have one letter, and some of a
spot report (`pl`, `pL`, `pY`, `uS`, `Cs`) two. -/
structure Update extends Message where
  stream : UserStream
  userId : Uuid
  letters : ∀ k x, payload.get k = some x → k.length ≤ 2

def rowUpdate (r : ExchangeOrderRow) (u : Update) : ExchangeOrderRow := rowEvent u.stream u.userId r u.toMessage

def handleUpdate (db : Db) (u : Update) : Db := handleEvent u.stream u.userId db u.toMessage

/-- The event is about the order of the row. -/
def Update.reaches (u : Update) (r : ExchangeOrderRow) : Bool :=
  match u.stream.fields u.payload with
  | none => false
  | some (venueOrderId, _) => r.isVenueOrder u.userId "binance" u.stream.segment venueOrderId

/-- Every row goes its own way. -/
theorem run_handleUpdate (db : Db) (us : List Update) :
    (run handleUpdate db us).orders = db.orders.map (run rowUpdate · us) := by
  induction us generalizing db with
  | nil => simp
  | cons u us ih =>
    have hstep : (handleUpdate db u).orders = db.orders.map (rowUpdate · u) := handleEvent_orders
    rw [run_cons, ih, hstep, List.map_map]
    rfl

/-! ## What is read from a row -/

def executedQtyOf (r : ExchangeOrderRow) : Option ℚ := r.venueResponse.bind parseExecutedQty

def avgPriceOf (r : ExchangeOrderRow) : Option ℚ :=
  r.venueResponse.bind fun v => (parseExecutedQty v).bind (parseAvgPrice v)

def binanceOrderOf (r : ExchangeOrderRow) : Option ParsedBinanceOrder := r.venueResponse.bind parseBinanceOrder

/-- What the readers had from the row they still have: no less executed, on the same side, at some price. -/
structure Survives (r r' : ExchangeOrderRow) : Prop where
  qty : ∀ q, executedQtyOf r = some q → ∃ q', executedQtyOf r' = some q' ∧ q ≤ q'
  price : (avgPriceOf r).isSome → (avgPriceOf r').isSome
  order : ∀ p, binanceOrderOf r = some p →
    ∃ p', binanceOrderOf r' = some p' ∧ p.executedQty ≤ p'.executedQty ∧ p'.side = p.side

theorem Survives.refl (r : ExchangeOrderRow) : Survives r r :=
  ⟨fun q h => ⟨q, h, le_rfl⟩, fun h => h, fun p h => ⟨p, h, le_rfl, rfl⟩⟩

section update
variable {r : ExchangeOrderRow} {u : Update}

/-- The names the readers ask for are longer. -/
theorem get_letters {k : String} (hk : 2 < k.length) : u.payload.get k = none := by
  cases hget : u.payload.get k with
  | none => rfl
  | some x => exact absurd (u.letters k x hget) (Nat.not_le.2 hk)

theorem rowUpdate_skipped (h : r.status.isTerminal ∨ u.reaches r = false) : rowUpdate r u = r := by
  unfold Update.reaches at h
  unfold rowUpdate rowEvent
  split
  · rfl
  · rename_i venueOrderId status hfields
    simp only [hfields] at h
    rw [if_neg]
    rcases h with hterminal | hother
    · simp [hterminal]
    · simp [hother]

/-- **An event that reaches a row** leaves the readers nothing. -/
theorem rowUpdate_reached (hstatus : r.status.isTerminal = false) (h : u.reaches r = true) :
    executedQtyOf (rowUpdate r u) = none ∧ avgPriceOf (rowUpdate r u) = none ∧
      binanceOrderOf (rowUpdate r u) = none := by
  have hresponse : (rowUpdate r u).venueResponse = some u.payload := by
    unfold Update.reaches at h
    unfold rowUpdate rowEvent
    cases hfields : u.stream.fields u.payload with
    | none => simp [hfields] at h
    | some f =>
      simp only [hfields] at h
      simp [h, hstatus, setVenueStatus]
  have hqty : parseExecutedQty u.payload = none := by
    simp [parseExecutedQty, decimalField, get_letters (u := u) (k := "executedQty") (by decide)]
  have horder : parseBinanceOrder u.payload = none := by
    simp [parseBinanceOrder, get_letters (u := u) (k := "status") (by decide)]
  simp [executedQtyOf, avgPriceOf, binanceOrderOf, hresponse, hqty, horder]

end update

/-- **What survives**: through any sequence of stream updates, what a row has executed is never less and never
gone exactly when the row is final already or no update is about its order. -/
theorem survives_iff (r : ExchangeOrderRow) (us : List Update) (hread : (executedQtyOf r).isSome) :
    AllSteps rowUpdate (fun r u => Survives r (rowUpdate r u)) r us ↔
      r.status.isTerminal ∨ ∀ u ∈ us, u.reaches r = false := by
  induction us with
  | nil => simp [AllSteps]
  | cons u us ih =>
    rw [AllSteps, List.forall_mem_cons]
    by_cases hskip : r.status.isTerminal ∨ u.reaches r = false
    · rw [rowUpdate_skipped hskip, ih, and_iff_right (Survives.refl r)]
      tauto
    · simp only [not_or, Bool.not_eq_true, Bool.not_eq_false] at hskip
      obtain ⟨hstatus, hreaches⟩ := hskip
      obtain ⟨q, hq⟩ := Option.isSome_iff_exists.1 hread
      have hgone := (rowUpdate_reached hstatus hreaches).1
      simp only [hstatus, hreaches, Bool.false_eq_true, Bool.true_eq_false, false_and, or_false, iff_false]
      rintro ⟨hsurvives, -⟩
      obtain ⟨q', hq', -⟩ := hsurvives.qty q hq
      rw [hgone] at hq'
      cases hq'

/-! ## A market order and its event -/

theorem letters_obj {fields : List (String × Json)} (h : ∀ f ∈ fields, f.1.length ≤ 2) (k : String) (x : Json)
    (hget : (Json.obj fields).get k = some x) : k.length ≤ 2 := by
  simp only [Json.get] at hget
  induction fields with
  | nil => cases hget
  | cons f fields ih =>
    obtain ⟨hf, hfields⟩ := List.forall_mem_cons.1 h
    rw [List.lookup_cons] at hget
    split at hget
    · rename_i heq
      rw [eq_of_beq heq]
      exact hf
    · exact ih hfields hget

/-- Bought at the market; the reply said so, and `insert_submitted` has stored it. -/
def boughtRow (status : OrderStatus) : ExchangeOrderRow where
  id := 1
  orgId := 2
  userId := 3
  exchange := "binance"
  segment := "spot"
  symbol := "BTCUSDT"
  clientOrderId := 4
  status := status
  intent := .obj [("side", .str "buy")]
  venueOrderId := some 7
  venueResponse := some (.obj [("orderId", .int 7), ("status", .str "FILLED"), ("side", .str "BUY"),
    ("executedQty", .str "1"), ("cummulativeQuoteQty", .str "100")])
  createdAt := 0
  updatedAt := 0

/-- The `executionReport` of the same fill. -/
def filledReport : Update where
  payload := .obj [("e", .str "executionReport"), ("s", .str "BTCUSDT"), ("S", .str "BUY"), ("X", .str "FILLED"),
    ("i", .int 7), ("l", .str "1"), ("z", .str "1"), ("L", .str "100"), ("Z", .str "100"), ("t", .int 9)]
  fillId := 5
  now := 1
  stream := .spot
  userId := 3
  letters := letters_obj (by decide)

theorem filled_report_empties_row :
    executedQtyOf (boughtRow .submitted) = some 1 ∧ avgPriceOf (boughtRow .submitted) = some 100 ∧
      (binanceOrderOf (boughtRow .submitted)).map (·.executedQty) = some 1 ∧
      executedQtyOf (rowUpdate (boughtRow .submitted) filledReport) = none ∧
      avgPriceOf (rowUpdate (boughtRow .submitted) filledReport) = none ∧
      binanceOrderOf (rowUpdate (boughtRow .submitted) filledReport) = none := by
  decide +kernel

/-- A row that the order query has closed already keeps what it has. -/
theorem closed_row_survives :
    AllSteps rowUpdate (fun r u => Survives r (rowUpdate r u)) (boughtRow .filled) [filledReport] :=
  (survives_iff (boughtRow .filled) [filledReport] (by decide +kernel)).2 (.inl rfl)

end Qtss.Worker.BinanceUserStream
