import Mathlib.Data.String.Basic
import Mathlib.Data.List.Sort
import Mathlib.Tactic.LinearCombination
import Qtss.Lib.AverageCost
import Qtss.Lib.Keyed
import Qtss.Lib.RunningBalance
import Qtss.Storage.ExchangeOrders
/-
# The estimate of open positions (`qtss-storage/src/fill_long_estimate.rs`)

| here | there |
| --- | --- |
| `Book`, as `LongBook` and `ShortBook` | `LongBook`, `ShortBook` (fill_long_estimate.rs:23, :29): the same two fields |
| `updateBook`, as `updateLongBook` and `updateShortBook` | `update_long_book` (:71), `update_short_book` (:94): the same code, one added to by buys and the other by sells |
| `updateBooksBidirectional` | `update_books_bidirectional` (:115) |
| `fillOf`          | the `let … else` lines of the loop (:154-168) |
| `bookRow`, `aggregateLongBooksFromFills` | the rest of the loop, and `aggregate_long_books_from_fills` (:149) |

`str::to_uppercase` follows Unicode; it is a parameter, of which nothing is used.

In a futures key the two books are one signed book at average cost (`books_track`), in any other the long book
is a balance that restarts from zero (`long_restarts`).
-/

namespace Qtss.Storage.FillLongEstimate
open Keyed Runs RunningBalance
open Execution.Dry (trim)

structure FillPositionKey where
  userId : Uuid
  exchange : String
  segment : String
  symbol : String
deriving DecidableEq

@[ext] structure Book where
  qty : ℚ
  cost : ℚ
deriving DecidableEq

abbrev LongBook := Book
/-- The quantity of a short book is positive. -/
abbrev ShortBook := Book

def Book.empty : Book := ⟨0, 0⟩

structure BookWithOrg where
  book : LongBook
  short : ShortBook
  orgId : Option Uuid
deriving DecidableEq

def BookWithOrg.default : BookWithOrg := ⟨.empty, .empty, none⟩

/-! ## Reading a row -/

def parseExecutedQty (venue : Json) : Option ℚ := decimalField venue "executedQty"

/-- fill_long_estimate.rs:50. -/
def parseAvgPrice (venue : Json) (qty : ℚ) : Option ℚ :=
  (decimalField venue "avgPrice").or do
    let qq ← decimalField venue "cummulativeQuoteQty"
    if qty > 0 then some (qq / qty) else none

/-- `Char.toLower` maps `A`..`Z` only. -/
def toAsciiLowercase (s : String) : String := String.ofList (s.toList.map Char.toLower)

def intentSide (intent : Json) : Option OrderSide := do
  let s ← (← intent.get "side").asStr
  match toAsciiLowercase (trim s) with
  | "buy" => some .buy
  | "sell" => some .sell
  | _ => none

/-- A row's fill: side, quantity and average price. -/
structure Fill where
  side : OrderSide
  qty : ℚ
  price : ℚ
deriving DecidableEq

/-- What a filled order row executed; any other row is skipped. -/
def fillOf (row : ExchangeOrderRow) : Option Fill := do
  let venue ← row.venueResponse
  let qty ← parseExecutedQty venue
  if qty ≤ 0 then none
  else
    let side ← intentSide row.intent
    let price ← parseAvgPrice venue qty
    some ⟨side, qty, price⟩

def keyOf (toUppercase : String → String) (row : ExchangeOrderRow) : FillPositionKey :=
  ⟨row.userId, trim row.exchange, trim row.segment, toUppercase (trim row.symbol)⟩

def isFutures (segment : String) : Bool :=
  eqIgnoreAsciiCase segment "futures" || eqIgnoreAsciiCase segment "usdm"

/-! ## The books -/

/-- fill_long_estimate.rs:71 and :94: a book that one side adds to and the other takes from. -/
def updateBook (adds : OrderSide) (book : Book) (side : OrderSide) (qty price : ℚ) : Book :=
  let book :=
    if side = adds then ⟨book.qty + qty, book.cost + price * qty⟩
    else
      let take := min qty book.qty
      if take > 0 ∧ book.qty > 0 then
        let avg := book.cost / book.qty
        ⟨book.qty - take, book.cost - avg * take⟩
      else book
  if book.qty ≤ 0 then ⟨0, 0⟩ else book

def updateLongBook : LongBook → OrderSide → ℚ → ℚ → LongBook := updateBook .buy

def updateShortBook : ShortBook → OrderSide → ℚ → ℚ → ShortBook := updateBook .sell

/-- fill_long_estimate.rs:115. -/
def updateBooksBidirectional (long : LongBook) (short : ShortBook) (side : OrderSide) (qty price : ℚ) :
    LongBook × ShortBook :=
  match side with
  | .buy =>
    let closeShort := min qty short.qty
    let short := if closeShort > 0 then updateShortBook short .buy closeShort price else short
    let remainder := qty - closeShort
    (if remainder > 0 then updateLongBook long .buy remainder price else long, short)
  | .sell =>
    let closeLong := min qty long.qty
    let long := if closeLong > 0 then updateLongBook long .sell closeLong price else long
    let remainder := qty - closeLong
    (long, if remainder > 0 then updateShortBook short .sell remainder price else short)

/-- A fill in an entry of the map. -/
def BookWithOrg.fill (futures : Bool) (e : BookWithOrg) (f : Fill) : BookWithOrg :=
  if futures then
    let (long, short) := updateBooksBidirectional e.book e.short f.side f.qty f.price
    { e with book := long, short := short }
  else { e with book := updateLongBook e.book f.side f.qty f.price }

abbrev FillBooks := HashMap FillPositionKey BookWithOrg

/-- The body of the loop. -/
def bookRow (toUppercase : String → String) (m : FillBooks) (row : ExchangeOrderRow) : FillBooks :=
  match fillOf row with
  | none => m
  | some f =>
    let key := keyOf toUppercase row
    let e := (m.lookup key).getD .default
    let e := { e with orgId := e.orgId.or (some row.orgId) }
    m.insert key (e.fill (isFutures (trim row.segment)) f)

def sortByCreated (rows : List ExchangeOrderRow) : List ExchangeOrderRow :=
  rows.insertionSort fun a b => a.createdAt ≤ b.createdAt

/-- fill_long_estimate.rs:149. -/
def aggregateLongBooksFromFills (toUppercase : String → String) (rows : List ExchangeOrderRow) : FillBooks :=
  (sortByCreated rows).foldl (bookRow toUppercase) ∅

/-- :190: the symbols with an open position of at least `minQty`, long or short. -/
def symbolsWithOpenPositionsFromFills (toUppercase : String → String) (rows : List ExchangeOrderRow)
    (minQty : ℚ) : List String :=
  ascending (((aggregateLongBooksFromFills toUppercase rows).entries.filter fun e =>
    e.2.book.qty ≥ minQty ∨ e.2.short.qty ≥ minQty).map (·.1.symbol))

/-- :207: the symbols with an estimated net long of at least `minQty`. -/
def symbolsWithPositiveLongFromFills (toUppercase : String → String) (rows : List ExchangeOrderRow)
    (minQty : ℚ) : List String :=
  ascending (((aggregateLongBooksFromFills toUppercase rows).entries.filter fun e =>
    e.2.book.qty ≥ minQty).map (·.1.symbol))

/-! ## One key -/

/-- The two books of an entry. -/
structure Books where
  long : LongBook
  short : ShortBook
deriving DecidableEq

def Books.empty : Books := ⟨.empty, .empty⟩

def Books.fill (futures : Bool) (b : Books) (f : Fill) : Books :=
  if futures then
    let (long, short) := updateBooksBidirectional b.long b.short f.side f.qty f.price
    ⟨long, short⟩
  else { b with long := updateLongBook b.long f.side f.qty f.price }

/-- The books of a key, empty if it has no entry. -/
def booksOf (key : FillPositionKey) (m : FillBooks) : Books :=
  let e := (m.lookup key).getD .default
  ⟨e.book, e.short⟩

/-- The fills of a key among the rows. -/
def fillsOf (toUppercase : String → String) (key : FillPositionKey) (rows : List ExchangeOrderRow) : List Fill :=
  rows.filterMap fun row => if keyOf toUppercase row = key then fillOf row else none

theorem booksOf_bookRow (toUppercase : String → String) (key : FillPositionKey) (m : FillBooks)
    (row : ExchangeOrderRow) : booksOf key (bookRow toUppercase m row) =
      (if keyOf toUppercase row = key then fillOf row else none).elim (booksOf key m)
        ((booksOf key m).fill (isFutures key.segment)) := by
  unfold bookRow
  by_cases hkey : keyOf toUppercase row = key
  · subst hkey
    rw [if_pos rfl]
    cases fillOf row with
    | none => rfl
    | some f =>
      simp only [booksOf, lookup_insert_eq, if_true, Option.getD_some]
      unfold BookWithOrg.fill Books.fill
      split <;> simp_all [keyOf]
  · rw [if_neg hkey]
    cases fillOf row with
    | none => rfl
    | some f => simp only [booksOf, lookup_insert_eq, if_neg (Ne.symm hkey), Option.elim_none]

/-- The books of a key are made by its own fills, in the order the orders were created. -/
theorem booksOf_aggregate (toUppercase : String → String) (rows : List ExchangeOrderRow) (key : FillPositionKey) :
    booksOf key (aggregateLongBooksFromFills toUppercase rows) =
      run (Books.fill (isFutures key.segment)) .empty (fillsOf toUppercase key (sortByCreated rows)) :=
  run_filterMap (booksOf_bookRow toUppercase key) ∅ (sortByCreated rows)

theorem fillOf_qty_pos {row : ExchangeOrderRow} {f : Fill} (h : fillOf row = some f) : 0 < f.qty := by
  unfold fillOf at h
  simp only [Option.bind_eq_bind, Option.bind_eq_some_iff] at h
  obtain ⟨venue, -, qty, -, h⟩ := h
  split at h
  · cases h
  · rename_i hqty
    simp only [Option.bind_eq_some_iff, Option.some.injEq] at h
    obtain ⟨side, -, price, -, rfl⟩ := h
    exact not_le.1 hqty

theorem fillsOf_qty_pos {toUppercase : String → String} {key : FillPositionKey} {rows : List ExchangeOrderRow} :
    ∀ f ∈ fillsOf toUppercase key rows, 0 < f.qty := by
  intro f hf
  obtain ⟨row, -, hrow⟩ := List.mem_filterMap.1 hf
  split at hrow
  · exact fillOf_qty_pos hrow
  · cases hrow

/-! ## Routes of a fill -/

def opposite : OrderSide → OrderSide
  | .buy => .sell
  | .sell => .buy

/-- What a fill does to the book of its own side and to the other one. -/
def cross (side : OrderSide) (own other : Book) (qty price : ℚ) : Book × Book :=
  let close := min qty other.qty
  (if qty - close > 0 then updateBook side own side (qty - close) price else own,
    if close > 0 then updateBook (opposite side) other side close price else other)

theorem bidirectional_eq (long : LongBook) (short : ShortBook) (side : OrderSide) (qty price : ℚ) :
    updateBooksBidirectional long short side qty price =
      match side with
      | .buy => cross .buy long short qty price
      | .sell => (cross .sell short long qty price).swap := by
  cases side <;> rfl

section routes
variable {side adds : OrderSide} {b own other : Book} {qty price : ℚ}

theorem updateBook_add (hb : 0 ≤ b.qty) (hq : 0 < qty) :
    updateBook adds b adds qty price = ⟨b.qty + qty, b.cost + price * qty⟩ := by
  have hpos : ¬ b.qty + qty ≤ 0 := (add_pos_of_nonneg_of_pos hb hq).not_ge
  simp [updateBook, hpos]

theorem updateBook_reduce (hside : side ≠ adds) (hq : 0 < qty) (hlt : qty < b.qty) :
    updateBook adds b side qty price = ⟨b.qty - qty, b.cost - b.cost / b.qty * qty⟩ := by
  have hpos : 0 < b.qty := hq.trans hlt
  have hleft : ¬ b.qty - qty ≤ 0 := (sub_pos.2 hlt).not_ge
  simp [updateBook, hside, min_eq_left hlt.le, hq, hpos, hleft]

/-- Everything, or as much as there is. -/
theorem updateBook_close (hside : side ≠ adds) (hb : 0 ≤ b.qty) (hle : b.qty ≤ qty) :
    updateBook adds b side qty price = .empty := by
  unfold updateBook
  simp only [if_neg hside, min_eq_right hle]
  rcases hb.eq_or_lt with hzero | hpos
  · simp [← hzero, Book.empty]
  · simp [hpos, Book.empty]

theorem side_ne_opposite (side : OrderSide) : side ≠ opposite side := by
  cases side <;> decide

theorem cross_open (hown : 0 ≤ own.qty) (hother : other.qty = 0) (hq : 0 < qty) :
    cross side own other qty price = (⟨own.qty + qty, own.cost + price * qty⟩, other) := by
  simp [cross, hother, hq, hq.le, updateBook_add hown hq]

theorem cross_reduce (hq : 0 < qty) (hlt : qty < other.qty) :
    cross side own other qty price = (own, ⟨other.qty - qty, other.cost - other.cost / other.qty * qty⟩) := by
  simp [cross, hq, min_eq_left hlt.le, updateBook_reduce (side_ne_opposite side) hq hlt]

theorem cross_close (hq : 0 < qty) (heq : qty = other.qty) :
    cross side own other qty price = (own, .empty) := by
  simp [cross, hq, ← heq, updateBook_close (side_ne_opposite side) (heq ▸ hq.le) heq.ge]

theorem cross_flip (hown : 0 ≤ own.qty) (hother : 0 < other.qty) (hlt : other.qty < qty) :
    cross side own other qty price =
      (⟨own.qty + (qty - other.qty), own.cost + price * (qty - other.qty)⟩, .empty) := by
  have hrest : 0 < qty - other.qty := sub_pos.2 hlt
  simp [cross, min_eq_right hlt.le, hlt, hother, updateBook_add hown hrest,
    updateBook_close (side_ne_opposite side) hother.le le_rfl]

end routes

/-! ## One signed book -/

def sign : OrderSide → ℚ
  | .buy => 1
  | .sell => -1

/-- What a fill adds to the balance. -/
def Fill.delta (f : Fill) : ℚ := sign f.side * f.qty

def Fill.lot (f : Fill) : ℚ × ℚ := (f.delta, f.price)

/-- Two books, of which the own one counts `σ` and the other `-σ`, are one signed book at average cost. -/
structure Tracks (σ : ℚ) (own other : Book) (s : AverageCost.Book ℚ) : Prop where
  own_nonneg : 0 ≤ own.qty
  other_nonneg : 0 ≤ other.qty
  one_sided : own.qty = 0 ∨ other.qty = 0
  own_ok : own.qty = 0 → own.cost = 0
  other_ok : other.qty = 0 → other.cost = 0
  net : s.net = σ * (own.qty - other.qty)
  cost : s.cost = σ * (own.cost - other.cost)

section tracks
variable {σ : ℚ} {side : OrderSide} {own other : Book} {s : AverageCost.Book ℚ} {qty price : ℚ}

theorem Tracks.swap (h : Tracks σ own other s) : Tracks (-σ) other own s where
  own_nonneg := h.other_nonneg
  other_nonneg := h.own_nonneg
  one_sided := h.one_sided.symm
  own_ok := h.other_ok
  other_ok := h.own_ok
  net := by
    rw [h.net]
    ring
  cost := by
    rw [h.cost]
    ring

theorem mul_self_of_sign (hσ : σ = 1 ∨ σ = -1) : σ * σ = 1 := by rcases hσ with rfl | rfl <;> norm_num

variable (side price) in
/-- The other book is empty: the fill adds. -/
theorem Tracks.fill_empty (h : Tracks σ own other s) (hσ : σ = 1 ∨ σ = -1) (hq : 0 < qty) (hother : other.qty = 0) :
    Tracks σ (cross side own other qty price).1 (cross side own other qty price).2
      (s.fill (σ * qty) price) := by
  have hsq := mul_self_of_sign hσ
  have hadd : 0 ≤ s.net * (σ * qty) := by
    have heq : s.net * (σ * qty) = own.qty * qty := by
      rw [h.net, hother]
      linear_combination own.qty * qty * hsq
    rw [heq]
    exact mul_nonneg h.own_nonneg hq.le
  have hown : own.qty + qty ≠ 0 := (add_pos_of_nonneg_of_pos h.own_nonneg hq).ne'
  rw [cross_open h.own_nonneg hother hq, AverageCost.Book.fill_add hadd]
  exact {
    own_nonneg := add_nonneg h.own_nonneg hq.le
    other_nonneg := h.other_nonneg
    one_sided := .inr hother
    own_ok := fun hzero => absurd hzero hown
    other_ok := h.other_ok
    net := by
      simp only [h.net]
      ring
    cost := by
      simp only [h.cost]
      ring }

variable (side price) in
/-- The other book is taken from first, and the own one gets what is over. -/
theorem Tracks.fill_against (h : Tracks σ own other s) (hσ : σ = 1 ∨ σ = -1) (hq : 0 < qty) (hpos : 0 < other.qty) :
    Tracks σ (cross side own other qty price).1 (cross side own other qty price).2
      (s.fill (σ * qty) price) := by
  have hsq := mul_self_of_sign hσ
  have habs : |σ| = 1 := by rcases hσ with rfl | rfl <;> norm_num
  have hown : own.qty = 0 := h.one_sided.resolve_right hpos.ne'
  have hcost := h.own_ok hown
  have hneg : s.net * (σ * qty) < 0 := by
    have heq : s.net * (σ * qty) = -(other.qty * qty) := by
      rw [h.net, hown]
      linear_combination -other.qty * qty * hsq
    rw [heq, neg_neg_iff_pos]
    exact mul_pos hpos hq
  have hfill : |σ * qty| = qty := by rw [abs_mul, habs, one_mul, abs_of_pos hq]
  have hnet : |s.net| = other.qty := by rw [h.net, hown, zero_sub, abs_mul, habs, one_mul, abs_neg, abs_of_pos hpos]
  have havg : s.avg = other.cost / other.qty := by
    have hσ0 : σ ≠ 0 := left_ne_zero_of_mul_eq_one hsq
    rw [AverageCost.Book.avg, h.net, h.cost, hown, hcost, zero_sub, zero_sub, mul_div_mul_left _ _ hσ0,
      neg_div_neg_eq]
  rcases lt_trichotomy qty other.qty with hlt | heq | hgt
  · rw [cross_reduce hq hlt, AverageCost.Book.fill_reduce hneg (by rw [hfill, hnet]; exact hlt.le)]
    exact {
      own_nonneg := h.own_nonneg
      other_nonneg := (sub_pos.2 hlt).le
      one_sided := .inl hown
      own_ok := h.own_ok
      other_ok := fun hzero => absurd hzero (sub_pos.2 hlt).ne'
      net := by
        simp only [h.net]
        ring
      cost := by
        simp only [h.cost, havg]
        ring }
  · rw [cross_close hq heq, AverageCost.Book.fill_reduce hneg (by rw [hfill, hnet]; exact heq.le)]
    exact {
      own_nonneg := h.own_nonneg
      other_nonneg := le_rfl
      one_sided := .inl hown
      own_ok := h.own_ok
      other_ok := fun _ => rfl
      net := by
        simp only [h.net, heq, Book.empty]
        ring
      cost := by
        simp only [h.cost, havg, heq, Book.empty]
        rw [mul_assoc, mul_div_cancel₀ _ hpos.ne']
        ring }
  · rw [cross_flip h.own_nonneg hpos hgt, AverageCost.Book.fill_flip hneg (by rw [hfill, hnet]; exact hgt)]
    have hrest : own.qty + (qty - other.qty) ≠ 0 :=
      (add_pos_of_nonneg_of_pos h.own_nonneg (sub_pos.2 hgt)).ne'
    exact {
      own_nonneg := add_nonneg h.own_nonneg (sub_pos.2 hgt).le
      other_nonneg := le_rfl
      one_sided := .inr rfl
      own_ok := fun hzero => absurd hzero hrest
      other_ok := fun _ => rfl
      net := by
        simp only [h.net, Book.empty]
        ring
      cost := by
        simp only [h.net, hown, hcost, Book.empty]
        ring }

variable (side price) in
/-- **One fill**: what crosses the two books fills the signed one. -/
theorem Tracks.fill (h : Tracks σ own other s) (hσ : σ = 1 ∨ σ = -1) (hq : 0 < qty) :
    Tracks σ (cross side own other qty price).1 (cross side own other qty price).2
      (s.fill (σ * qty) price) := by
  rcases h.other_nonneg.eq_or_lt with hzero | hpos
  · exact h.fill_empty side price hσ hq hzero.symm
  · exact h.fill_against side price hσ hq hpos

/-- The average of the signed book is that of the one that is not empty. -/
theorem Tracks.avg (h : Tracks σ own other s) (hσ : σ = 1 ∨ σ = -1) : own.cost = own.qty * s.avg := by
  by_cases hown : own.qty = 0
  · rw [hown, zero_mul, h.own_ok hown]
  · have hother := h.one_sided.resolve_left hown
    have hσ0 : σ ≠ 0 := by rcases hσ with rfl | rfl <;> norm_num
    rw [AverageCost.Book.avg, h.net, h.cost, hother, h.other_ok hother, sub_zero, sub_zero,
      mul_div_mul_left _ _ hσ0, mul_div_cancel₀ _ hown]

end tracks

/-- A futures key's long and short book as one. -/
abbrev Books.Tracks (b : Books) (s : AverageCost.Book ℚ) : Prop := FillLongEstimate.Tracks 1 b.long b.short s

theorem empty_tracks : Books.empty.Tracks .flat :=
  ⟨le_rfl, le_rfl, .inl rfl, fun _ => rfl, fun _ => rfl, by simp [AverageCost.Book.flat, Books.empty],
    by simp [AverageCost.Book.flat, Books.empty]⟩

theorem Books.Tracks.long_qty {b : Books} {s : AverageCost.Book ℚ} (h : b.Tracks s) :
    b.long.qty = max 0 s.net := by
  rw [h.net, one_mul]
  rcases h.one_sided with hlong | hshort
  · rw [hlong, zero_sub, max_eq_left (neg_nonpos.2 h.other_nonneg)]
  · rw [hshort, sub_zero, max_eq_right h.own_nonneg]

theorem Books.Tracks.fill {b : Books} {s : AverageCost.Book ℚ} {f : Fill} (h : b.Tracks s) (hq : 0 < f.qty) :
    (b.fill true f).Tracks (AverageCost.Book.step s f.lot) := by
  obtain ⟨side, qty, price⟩ := f
  simp only [Books.fill, if_true, bidirectional_eq]
  cases side with
  | buy => exact FillLongEstimate.Tracks.fill .buy price h (.inl rfl) hq
  | sell =>
    have hswap := (FillLongEstimate.Tracks.fill .sell price h.swap (.inr rfl) hq).swap
    rw [neg_neg] at hswap
    exact hswap

/-- **The fills of a futures key** make one signed book at average cost. -/
theorem books_track {b : Books} {s : AverageCost.Book ℚ} {fs : List Fill} (h : b.Tracks s)
    (hfs : ∀ f ∈ fs, 0 < f.qty) :
    (run (Books.fill true) b fs).Tracks (run AverageCost.Book.step s (fs.map Fill.lot)) := by
  induction fs generalizing b s with
  | nil => exact h
  | cons f fs ih =>
    obtain ⟨hf, hfs⟩ := List.forall_mem_cons.1 hfs
    rw [List.map_cons, run_cons, run_cons]
    exact ih (h.fill hf) hfs

theorem run_net (s : AverageCost.Book ℚ) (fs : List Fill) :
    (run AverageCost.Book.step s (fs.map Fill.lot)).net = s.net + (fs.map Fill.delta).sum := by
  have hnet := @measure_run_all _ _ AverageCost.Book.step _ _ AverageCost.Book.net (fun _ m => m.1)
    (fun b m => AverageCost.Book.fill_net b m.1 m.2) s (fs.map Fill.lot)
  rw [hnet, total_ops, List.map_map]
  rfl

/-! ## The restarted balance -/

theorem updateLongBook_qty {b : LongBook} {f : Fill} (hb : 0 ≤ b.qty) (hq : 0 < f.qty) :
    (updateLongBook b f.side f.qty f.price).qty = restart b.qty f.delta := by
  obtain ⟨side, qty, price⟩ := f
  have hside : OrderSide.sell ≠ .buy := by decide
  cases side with
  | buy =>
    have hpos : 0 ≤ b.qty + qty := add_nonneg hb hq.le
    simp only [updateLongBook, updateBook_add hb hq, restart, Fill.delta, sign, one_mul, max_eq_right hpos]
  | sell =>
    rcases lt_or_ge qty b.qty with hlt | hge
    · have hpos : 0 ≤ b.qty - qty := (sub_pos.2 hlt).le
      simp only [updateLongBook, updateBook_reduce hside hq hlt, restart, Fill.delta, sign,
        neg_one_mul, ← sub_eq_add_neg, max_eq_right hpos]
    · have hneg : b.qty - qty ≤ 0 := sub_nonpos.2 hge
      simp only [updateLongBook, updateBook_close hside hb hge, restart, Fill.delta, sign,
        neg_one_mul, ← sub_eq_add_neg, max_eq_left hneg]
      rfl

/-- A long book on its own is a balance that restarts from zero. -/
theorem long_restarts {b : LongBook} {fs : List Fill} (hb : 0 ≤ b.qty) (hfs : ∀ f ∈ fs, 0 < f.qty) :
    (run (fun b f => updateLongBook b f.side f.qty f.price) b fs).qty = run restart b.qty (fs.map Fill.delta) := by
  induction fs generalizing b with
  | nil => rfl
  | cons f fs ih =>
    obtain ⟨hf, hfs⟩ := List.forall_mem_cons.1 hfs
    have hqty := updateLongBook_qty hb hf
    rw [run_cons, List.map_cons, run_cons, ← hqty]
    apply ih _ hfs
    rw [hqty]
    exact restart_nonneg _ _

/-- Outside futures the short book is not touched. -/
theorem run_fill_false (b : Books) (fs : List Fill) : run (Books.fill false) b fs =
    ⟨run (fun b f => updateLongBook b f.side f.qty f.price) b.long fs, b.short⟩ := by
  induction fs generalizing b with
  | nil => rfl
  | cons f fs ih => exact ih _

/-! ## The estimate -/

/-- What an order of one side in a key executed: its `executedQty`, if that is positive and there is a price. -/
def executedQty (toUppercase : String → String) (key : FillPositionKey) (side : OrderSide) (row : ExchangeOrderRow) : ℚ :=
  match row.venueResponse with
  | none => 0
  | some venue =>
    match parseExecutedQty venue with
    | none => 0
    | some qty =>
      if 0 < qty ∧ keyOf toUppercase row = key ∧ intentSide row.intent = some side ∧ (parseAvgPrice venue qty).isSome
      then qty else 0

/-- The quantity that orders of one side executed in a key. -/
def executed (toUppercase : String → String) (key : FillPositionKey) (side : OrderSide)
    (rows : List ExchangeOrderRow) : ℚ :=
  (rows.map (executedQty toUppercase key side)).sum

theorem executedQty_eq (toUppercase : String → String) (key : FillPositionKey) (side : OrderSide)
    (row : ExchangeOrderRow) : executedQty toUppercase key side row =
      (((if keyOf toUppercase row = key then fillOf row else none).toList.filter (·.side = side)).map (·.qty)).sum := by
  unfold executedQty fillOf
  by_cases hkey : keyOf toUppercase row = key
  · rw [if_pos hkey]
    cases row.venueResponse with
    | none => rfl
    | some venue =>
      cases hqty : parseExecutedQty venue with
      | none => simp [hqty]
      | some qty =>
        by_cases hpos : 0 < qty
        · cases intentSide row.intent with
          | none => simp [hqty]
          | some s =>
            cases hprice : parseAvgPrice venue qty with
            | none => simp [hqty, hpos.not_ge, hprice]
            | some price => by_cases hs : s = side <;> simp [hqty, hpos, hpos.not_ge, hprice, hkey, hs]
        · simp [hqty, hpos, not_lt.1 hpos]
  · rw [if_neg hkey]
    split
    · rfl
    · split <;> simp [hkey]

/-- The fills are what was executed. -/
theorem executed_eq (toUppercase : String → String) (key : FillPositionKey) (side : OrderSide)
    (rows : List ExchangeOrderRow) : executed toUppercase key side rows =
      (((fillsOf toUppercase key rows).filter (·.side = side)).map (·.qty)).sum := by
  unfold executed fillsOf
  induction rows with
  | nil => rfl
  | cons row rows ih =>
    rw [List.map_cons, List.sum_cons, ih, executedQty_eq, List.filterMap_cons]
    cases (if keyOf toUppercase row = key then fillOf row else none) with
    | none => simp
    | some f => by_cases hside : f.side = side <;> simp [hside]

theorem sum_delta (fs : List Fill) : (fs.map Fill.delta).sum =
    ((fs.filter (·.side = .buy)).map (·.qty)).sum - ((fs.filter (·.side = .sell)).map (·.qty)).sum := by
  induction fs with
  | nil => simp
  | cons f fs ih =>
    obtain ⟨side, qty, price⟩ := f
    cases side <;> simp [Fill.delta, sign, ih] <;> ring

theorem fillsOf_sort (toUppercase : String → String) (key : FillPositionKey) (rows : List ExchangeOrderRow) :
    (fillsOf toUppercase key (sortByCreated rows)).Perm (fillsOf toUppercase key rows) :=
  (List.perm_insertionSort _ rows).filterMap _

/-- The order of the rows does not matter for what was executed. -/
theorem sum_delta_sort (toUppercase : String → String) (key : FillPositionKey) (rows : List ExchangeOrderRow) :
    ((fillsOf toUppercase key (sortByCreated rows)).map Fill.delta).sum =
      executed toUppercase key .buy rows - executed toUppercase key .sell rows := by
  rw [((fillsOf_sort toUppercase key rows).map Fill.delta).sum_eq, sum_delta, executed_eq, executed_eq]

/-- The books of a futures key: `s` is the exposure at average cost. -/
structure FuturesEstimate (b : Books) (s : AverageCost.Book ℚ) (bought sold : ℚ) : Prop where
  long_nonneg : 0 ≤ b.long.qty
  short_nonneg : 0 ≤ b.short.qty
  one_sided : ¬ (0 < b.long.qty ∧ 0 < b.short.qty)
  net : b.long.qty - b.short.qty = bought - sold
  long_cost : b.long.cost = b.long.qty * s.avg
  short_cost : b.short.cost = b.short.qty * s.avg

/-- The books of any other key. -/
structure SpotEstimate (b : Books) (fs : List Fill) : Prop where
  short_empty : b.short = .empty
  long_qty : b.long.qty = run restart 0 (fs.map Fill.delta)

/-- **The estimate**: from any rows, a futures key has one exposure at average cost, held in one of its books, of
what was bought less what was sold; any other key has a long balance that restarts from zero. -/
theorem estimate_of_fills (toUppercase : String → String) (rows : List ExchangeOrderRow) (key : FillPositionKey) :
    let b := booksOf key (aggregateLongBooksFromFills toUppercase rows)
    let fs := fillsOf toUppercase key (sortByCreated rows)
    if isFutures key.segment then
      FuturesEstimate b (run AverageCost.Book.step .flat (fs.map Fill.lot))
        (executed toUppercase key .buy rows) (executed toUppercase key .sell rows)
    else SpotEstimate b fs := by
  intro b fs
  have hpos : ∀ f ∈ fs, 0 < f.qty := fillsOf_qty_pos
  have hb : b = run (Books.fill (isFutures key.segment)) .empty fs := booksOf_aggregate toUppercase rows key
  cases hfutures : isFutures key.segment with
  | true =>
    have htracks := books_track empty_tracks hpos
    rw [hfutures] at hb
    rw [← hb] at htracks
    have hnet := htracks.net
    rw [run_net, sum_delta_sort, one_mul] at hnet
    rw [if_pos rfl]
    exact {
      long_nonneg := htracks.own_nonneg
      short_nonneg := htracks.other_nonneg
      one_sided := fun h => htracks.one_sided.elim h.1.ne' h.2.ne'
      net := hnet.symm.trans (zero_add _)
      long_cost := htracks.avg (.inl rfl)
      short_cost := htracks.swap.avg (.inr rfl) }
  | false =>
    rw [hfutures, run_fill_false] at hb
    rw [if_neg Bool.false_ne_true]
    refine ⟨by rw [hb]; rfl, ?_⟩
    rw [hb]
    exact long_restarts le_rfl hpos

/-- The order row of the module's tests. -/
def makeOrder (segment side qty price : String) (createdAt : DateTime) : ExchangeOrderRow where
  id := 0
  orgId := 1
  userId := 2
  exchange := "binance"
  segment := segment
  symbol := "SOLUSDT"
  clientOrderId := 3
  status := .filled
  intent := .obj [("side", .str side)]
  venueOrderId := none
  venueResponse := some (.obj [("executedQty", .str qty), ("avgPrice", .str price)])
  createdAt := createdAt
  updatedAt := createdAt

-- `futures_buy_exceeds_short_creates_long`
example : booksOf ⟨2, "binance", "futures", "SOLUSDT"⟩ (aggregateLongBooksFromFills id
    [makeOrder "futures" "sell" "10.0" "100" 0, makeOrder "futures" "buy" "15.0" "95" 1]) =
      ⟨⟨5, 475⟩, .empty⟩ := by
  decide +kernel

end Qtss.Storage.FillLongEstimate
