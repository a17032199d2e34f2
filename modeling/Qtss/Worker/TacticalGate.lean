import Mathlib.Data.Sign.Basic
import Qtss.Storage.FillLongEstimate
import Qtss.Worker.AiTacticalExecutor
/-
# The position gate and the fill books

The gate sums what every order of a symbol asked for, whoever's and in whatever segment; the books add up what the orders
of one key executed. `surplus` is what lies between the two.
-/

namespace Qtss.Worker.AiTactical
open Runs RunningBalance Storage Storage.FillLongEstimate
open Execution.Dry (trim)

variable {toUppercase : String → String} {rows rows' : List ExchangeOrderRow} {key : FillPositionKey}

/-! ## What is summed -/

def ofSymbol (toUppercase : String → String) (key : FillPositionKey) (row : ExchangeOrderRow) : Bool :=
  eqIgnoreAsciiCase row.symbol (toUppercase (trim key.symbol))

/-- The row is of the key's user and segment. -/
def ofAccount (key : FillPositionKey) (row : ExchangeOrderRow) : Bool :=
  row.userId = key.userId && trim row.segment = key.segment

/-- What the rows of the symbol ask for that `p` picks. -/
def requestedWhere (toUppercase : String → String) (key : FillPositionKey) (p : ExchangeOrderRow → Bool)
    (rows : List ExchangeOrderRow) : ℚ :=
  ((rows.filter fun row => ofSymbol toUppercase key row && p row).map requested).sum

/-- What other users' orders, and those of other segments, ask for. -/
def foreign (toUppercase : String → String) (key : FillPositionKey) : List ExchangeOrderRow → ℚ :=
  requestedWhere toUppercase key fun row => !ofAccount key row

/-- What the account's own orders ask for. -/
def ownRequested (toUppercase : String → String) (key : FillPositionKey) : List ExchangeOrderRow → ℚ :=
  requestedWhere toUppercase key (ofAccount key)

/-- What the key's orders bought less what they sold. -/
def executedNet (toUppercase : String → String) (key : FillPositionKey) (rows : List ExchangeOrderRow) : ℚ :=
  executed toUppercase key .buy rows - executed toUppercase key .sell rows

/-- What was sold, outside futures, beyond what was there. -/
def oversold (toUppercase : String → String) (key : FillPositionKey) (rows : List ExchangeOrderRow) : ℚ :=
  if isFutures key.segment then 0 else -lowest ((fillsOf toUppercase key (sortByCreated rows)).map Fill.delta)

/-- What the key holds: a negative quantity is short. -/
def held (toUppercase : String → String) (key : FillPositionKey) (rows : List ExchangeOrderRow) : ℚ :=
  executedNet toUppercase key rows + oversold toUppercase key rows

/-- What the gate counts beyond that: foreign orders, what the own ones ask for and do not execute, and sales of what is
not there. -/
def surplus (toUppercase : String → String) (key : FillPositionKey) (rows : List ExchangeOrderRow) : ℚ :=
  foreign toUppercase key rows + (ownRequested toUppercase key rows - executedNet toUppercase key rows) -
    oversold toUppercase key rows

/-- The gate sees a long position when there is one in the key's books, and a short one likewise. -/
def AgreesWithBooks (toUppercase : String → String) (key : FillPositionKey) (rows : List ExchangeOrderRow) : Prop :=
  let position := netPositionForSymbol toUppercase rows key.symbol
  let b := booksOf key (aggregateLongBooksFromFills toUppercase rows)
  (0 < position.1 ↔ 0 < b.long.qty) ∧ (0 < position.2 ↔ 0 < b.short.qty)

instance : Decidable (AgreesWithBooks toUppercase key rows) := inferInstanceAs (Decidable (_ ∧ _))

/-! ## The gate -/

theorem foldl_requested (sym : String) (net : ℚ) (rows : List ExchangeOrderRow) :
    rows.foldl (fun net row => if !eqIgnoreAsciiCase row.symbol sym then net else net + requested row) net =
      net + ((rows.filter fun row => eqIgnoreAsciiCase row.symbol sym).map requested).sum := by
  induction rows generalizing net with
  | nil => simp
  | cons row rows ih =>
    rw [List.foldl_cons, ih]
    cases hsym : eqIgnoreAsciiCase row.symbol sym with
    | true => simp [hsym, add_assoc]
    | false => simp [hsym]

theorem requestedWhere_split (toUppercase : String → String) (key : FillPositionKey) (rows : List ExchangeOrderRow) :
    ((rows.filter fun row => ofSymbol toUppercase key row).map requested).sum =
      foreign toUppercase key rows + ownRequested toUppercase key rows := by
  unfold foreign ownRequested requestedWhere
  induction rows with
  | nil => simp
  | cons row rows ih =>
    cases hsym : ofSymbol toUppercase key row <;> cases hown : ofAccount key row <;>
      simp [hsym, hown, ih] <;> ring

/-- **The gate's position** is the sum, split by its sign. -/
theorem netPosition_eq (toUppercase : String → String) (key : FillPositionKey) (rows : List ExchangeOrderRow) :
    netPositionForSymbol toUppercase rows key.symbol =
      (max 0 (foreign toUppercase key rows + ownRequested toUppercase key rows),
        max 0 (-(foreign toUppercase key rows + ownRequested toUppercase key rows))) := by
  rw [← requestedWhere_split]
  unfold netPositionForSymbol
  simp only [foldl_requested, zero_add]
  generalize hnet : ((rows.filter fun row => ofSymbol toUppercase key row).map requested).sum = net
  rw [show ((rows.filter fun row => eqIgnoreAsciiCase row.symbol (toUppercase (trim key.symbol))).map requested).sum =
    net from hnet]
  split
  next hpos => rw [max_eq_right (le_of_lt hpos), max_eq_left (by linarith)]
  next hpos =>
    split
    next hneg => rw [max_eq_left (le_of_lt hneg), max_eq_right (by linarith), abs_of_neg hneg]
    next hneg =>
      obtain rfl : net = 0 := le_antisymm (not_lt.1 hpos) (not_lt.1 hneg)
      simp

theorem held_add_surplus (toUppercase : String → String) (key : FillPositionKey) (rows : List ExchangeOrderRow) :
    held toUppercase key rows + surplus toUppercase key rows =
      foreign toUppercase key rows + ownRequested toUppercase key rows := by
  unfold held surplus
  ring

/-! ## The books -/

theorem books_qty (toUppercase : String → String) (key : FillPositionKey) (rows : List ExchangeOrderRow) :
    let b := booksOf key (aggregateLongBooksFromFills toUppercase rows)
    b.long.qty = max 0 (held toUppercase key rows) ∧ b.short.qty = max 0 (-held toUppercase key rows) := by
  intro b
  have hestimate := estimate_of_fills toUppercase rows key
  unfold held oversold
  cases hfutures : isFutures key.segment with
  | true =>
    rw [hfutures, if_pos rfl] at hestimate
    rw [if_pos rfl, add_zero]
    have hnet : b.long.qty - b.short.qty = executedNet toUppercase key rows := hestimate.net
    have hlong : 0 ≤ b.long.qty := hestimate.long_nonneg
    have hshort : 0 ≤ b.short.qty := hestimate.short_nonneg
    have hone : ¬ (0 < b.long.qty ∧ 0 < b.short.qty) := hestimate.one_sided
    rw [← hnet]
    rcases hlong.lt_or_eq with hpos | hzero
    · have hnone : b.short.qty = 0 := le_antisymm (not_lt.1 fun h => hone ⟨hpos, h⟩) hshort
      rw [hnone, sub_zero, max_eq_right hlong, max_eq_left (by linarith)]
      exact ⟨rfl, rfl⟩
    · rw [← hzero, zero_sub, neg_neg, max_eq_right hshort, max_eq_left (by linarith)]
      exact ⟨rfl, rfl⟩
  | false =>
    rw [hfutures, if_neg Bool.false_ne_true] at hestimate
    rw [if_neg Bool.false_ne_true]
    have hshort : b.short.qty = 0 := congrArg Book.qty hestimate.short_empty
    have hlong := hestimate.long_qty
    rw [run_restart le_rfl, max_eq_right (neg_nonneg.2 (lowest_nonpos _)), sum_delta_sort] at hlong
    have hheld : 0 ≤ b.long.qty := by
      rw [hestimate.long_qty, run_restart le_rfl, max_eq_right (neg_nonneg.2 (lowest_nonpos _)), ← sub_eq_add_neg,
        sub_nonneg]
      exact le_lowest_iff.1 le_rfl _ (List.prefix_refl _)
    have hsum : executedNet toUppercase key rows +
        -lowest ((fillsOf toUppercase key (sortByCreated rows)).map Fill.delta) = b.long.qty := hlong.symm
    rw [hsum, hshort, max_eq_right hheld, max_eq_left (by linarith)]
    exact ⟨rfl, rfl⟩

/-! ## The gate and the books -/

theorem split_injective {p q : ℚ} : (max 0 p, max 0 (-p)) = (max 0 q, max 0 (-q)) ↔ p = q := by
  have hsub (x : ℚ) : max 0 x - max 0 (-x) = x := by
    rw [max_comm 0 x, max_comm 0 (-x)]
    exact max_zero_sub_max_neg_zero_eq_self x
  constructor
  · intro h
    obtain ⟨hpos, hneg⟩ := Prod.mk.inj h
    rw [← hsub p, ← hsub q, hpos, hneg]
  · rintro rfl
    rfl

theorem sign_eq_iff_split {p q : ℚ} : SignType.sign p = SignType.sign q ↔
    (0 < max 0 p ↔ 0 < max 0 q) ∧ (0 < max 0 (-p) ↔ 0 < max 0 (-q)) := by
  simp only [lt_max_iff, lt_irrefl, false_or, neg_pos]
  rcases lt_trichotomy p 0 with hp | rfl | hp <;> rcases lt_trichotomy q 0 with hq | rfl | hq <;>
    simp [*, sign_neg, sign_pos, not_lt_of_gt]

theorem agreesWithBooks_iff : AgreesWithBooks toUppercase key rows ↔
    SignType.sign (held toUppercase key rows + surplus toUppercase key rows) =
      SignType.sign (held toUppercase key rows) := by
  obtain ⟨hlong, hshort⟩ := books_qty toUppercase key rows
  simp only [AgreesWithBooks]
  rw [netPosition_eq, held_add_surplus, sign_eq_iff_split, hlong, hshort]

/-- Rows that differ in those of other accounts differ in what these ask for. -/
theorem ownRequested_congr (h : rows.filter (ofAccount key) = rows'.filter (ofAccount key)) :
    ownRequested toUppercase key rows = ownRequested toUppercase key rows' := by
  unfold ownRequested requestedWhere
  rw [← List.filter_filter, ← List.filter_filter, h]

/-- **The gate**, for rows and others that differ from them in other users' or segments' rows only, gives one position and
agrees with the books exactly when the foreign orders ask for as much in both, and what the gate counts beyond the
holding does not turn its sign. -/
theorem gate_iff (toUppercase : String → String) (key : FillPositionKey) (rows rows' : List ExchangeOrderRow)
    (hown : rows.filter (ofAccount key) = rows'.filter (ofAccount key)) :
    netPositionForSymbol toUppercase rows' key.symbol = netPositionForSymbol toUppercase rows key.symbol ∧
        AgreesWithBooks toUppercase key rows ↔
      foreign toUppercase key rows' = foreign toUppercase key rows ∧
        SignType.sign (held toUppercase key rows + surplus toUppercase key rows) =
          SignType.sign (held toUppercase key rows) := by
  rw [netPosition_eq, netPosition_eq, split_injective, ownRequested_congr hown, add_left_inj, agreesWithBooks_iff]

/-! ## Two users, and a partial fill -/

def order (userId : Uuid) (side quantity executedQty : String) : ExchangeOrderRow where
  id := 0
  orgId := 1
  userId := userId
  exchange := "binance"
  segment := "futures"
  symbol := "BTCUSDT"
  clientOrderId := 3
  status := .filled
  intent := .obj [("side", .str side), ("quantity", .str quantity)]
  venueOrderId := none
  venueResponse := some (.obj [("executedQty", .str executedQty), ("avgPrice", .str "100")])
  createdAt := 0
  updatedAt := 0

def btcFutures : FillPositionKey := ⟨2, "binance", "futures", "BTCUSDT"⟩

/-- Bought and sold back by another user, and bought here. -/
theorem gate_iff_settled :
    netPositionForSymbol Execution.Dry.toAsciiUppercase [order 2 "buy" "5" "5"] "BTCUSDT" =
        netPositionForSymbol Execution.Dry.toAsciiUppercase
          [order 5 "buy" "1" "1", order 2 "buy" "5" "5", order 5 "sell" "1" "1"] "BTCUSDT" ∧
      AgreesWithBooks Execution.Dry.toAsciiUppercase btcFutures
        [order 5 "buy" "1" "1", order 2 "buy" "5" "5", order 5 "sell" "1" "1"] :=
  (gate_iff Execution.Dry.toAsciiUppercase btcFutures
    [order 5 "buy" "1" "1", order 2 "buy" "5" "5", order 5 "sell" "1" "1"] [order 2 "buy" "5" "5"]
    (by rfl)).2 (by decide +kernel)

/-- Another user's purchase is a position of this one, and 10 asked for, 2 bought and 5 sold is long 5. -/
theorem foreign_and_partial :
    netPositionForSymbol Execution.Dry.toAsciiUppercase [order 5 "buy" "1" "1"] "BTCUSDT" = (1, 0) ∧
    netPositionForSymbol Execution.Dry.toAsciiUppercase [] "BTCUSDT" = (0, 0) ∧
    netPositionForSymbol Execution.Dry.toAsciiUppercase [order 2 "buy" "10" "2", order 2 "sell" "5" "5"] "BTCUSDT" =
      (5, 0) ∧
    ¬ AgreesWithBooks Execution.Dry.toAsciiUppercase btcFutures [order 2 "buy" "10" "2", order 2 "sell" "5" "5"] := by
  decide +kernel

end Qtss.Worker.AiTactical
