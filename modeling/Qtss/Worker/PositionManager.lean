import Qtss.Storage.FillLongEstimate
/-
# The position manager's long books (`qtss-worker/src/position_manager.rs`)

| here | there |
| --- | --- |
| `PosKey`, `LongBook`, `updateLongBook` and the reading of a row | position_manager.rs repeats them word for word from `fill_long_estimate.rs` (:270-335) |
| `BookWithOrg`, `bookRow`, `aggregateLongBooks` | `BookWithOrg`, `aggregate_long_books` (:337) |

`fill_long_estimate.rs` says it follows the same rules. It has a short book for futures, this module has none:
what is sold short is forgotten here, and what is bought back counts as a long position
(`same_long_iff`).
-/

namespace Qtss.Worker.PositionManager
open Keyed Runs RunningBalance Storage Storage.FillLongEstimate
open Execution.Dry (trim)

abbrev PosKey := FillPositionKey

structure BookWithOrg where
  book : LongBook
  orgId : Option Uuid
deriving DecidableEq

def BookWithOrg.default : BookWithOrg := ⟨.empty, none⟩

abbrev LongBooks := HashMap PosKey BookWithOrg

def bookRow (toUppercase : String → String) (m : LongBooks) (row : ExchangeOrderRow) : LongBooks :=
  match fillOf row with
  | none => m
  | some f =>
    let key := keyOf toUppercase row
    let e := (m.lookup key).getD .default
    m.insert key ⟨updateLongBook e.book f.side f.qty f.price, e.orgId.or (some row.orgId)⟩

/-- position_manager.rs:337. -/
def aggregateLongBooks (toUppercase : String → String) (rows : List ExchangeOrderRow) : LongBooks :=
  (sortByCreated rows).foldl (bookRow toUppercase) ∅

/-! ## One key -/

/-- The long book of a key, empty if it has no entry. -/
def longOf (key : PosKey) (m : LongBooks) : LongBook := ((m.lookup key).getD .default).book

def fillLong (b : LongBook) (f : Fill) : LongBook := updateLongBook b f.side f.qty f.price

theorem longOf_bookRow (toUppercase : String → String) (key : PosKey) (m : LongBooks) (row : ExchangeOrderRow) :
    longOf key (bookRow toUppercase m row) =
      (if keyOf toUppercase row = key then fillOf row else none).elim (longOf key m) (fillLong (longOf key m)) := by
  unfold bookRow
  by_cases hkey : keyOf toUppercase row = key
  · subst hkey
    rw [if_pos rfl]
    cases fillOf row with
    | none => rfl
    | some f => simp only [longOf, lookup_insert_eq, if_true, Option.getD_some, Option.elim_some, fillLong]
  · rw [if_neg hkey]
    cases fillOf row with
    | none => rfl
    | some f => simp only [longOf, lookup_insert_eq, if_neg (Ne.symm hkey), Option.elim_none]

theorem longOf_aggregate (toUppercase : String → String) (rows : List ExchangeOrderRow) (key : PosKey) :
    longOf key (aggregateLongBooks toUppercase rows) =
      run fillLong .empty (fillsOf toUppercase key (sortByCreated rows)) :=
  run_filterMap (longOf_bookRow toUppercase key) ∅ (sortByCreated rows)

/-- An empty book has cost nothing. -/
theorem fillLong_zero {b : LongBook} {f : Fill} (h : (fillLong b f).qty = 0) : fillLong b f = .empty := by
  obtain ⟨b', hb'⟩ : ∃ b' : Book, fillLong b f = if b'.qty ≤ 0 then ⟨0, 0⟩ else b' := ⟨_, rfl⟩
  rw [hb'] at h ⊢
  split
  · rfl
  · rename_i hpos
    rw [if_neg hpos] at h
    exact absurd h.le hpos

theorem run_fillLong_zero {fs : List Fill} (h : (run fillLong .empty fs).qty = 0) :
    run fillLong .empty fs = .empty := by
  have hinv : (run fillLong .empty fs).qty = 0 → run fillLong .empty fs = .empty :=
    run_invariant (J := fun b : LongBook => b.qty = 0 → b = .empty) (K := fun _ => True)
      (fun _ _ _ _ => fillLong_zero) (fun _ => rfl) fun _ _ => trivial
  exact hinv h

/-! ## Where a futures key is never short -/

/-- As long as the balance is not negative, the other estimate books a futures fill in the same way. -/
theorem fill_never_short {b : LongBook} {f : Fill} (hq : 0 < f.qty) (hlong : 0 ≤ b.qty + f.delta) :
    Books.fill true ⟨b, .empty⟩ f = ⟨fillLong b f, .empty⟩ := by
  obtain ⟨side, qty, price⟩ := f
  cases side with
  | buy =>
    have hmin : min qty 0 = 0 := min_eq_right hq.le
    simp [Books.fill, updateBooksBidirectional, fillLong, hmin, hq, Book.empty]
  | sell =>
    have hle : qty ≤ b.qty := by
      simp only [Fill.delta, sign, neg_one_mul] at hlong
      linarith
    simp [Books.fill, updateBooksBidirectional, fillLong, min_eq_left hle, hq]

theorem run_never_short {b : LongBook} {fs : List Fill} (hb : 0 ≤ b.qty) (hfs : ∀ f ∈ fs, 0 < f.qty)
    (hlong : ∀ p, p <+: fs.map Fill.delta → 0 ≤ b.qty + p.sum) :
    run (Books.fill true) ⟨b, .empty⟩ fs = ⟨run fillLong b fs, .empty⟩ := by
  induction fs generalizing b with
  | nil => rfl
  | cons f fs ih =>
    obtain ⟨hf, hfs⟩ := List.forall_mem_cons.1 hfs
    have hprefix : ∀ p, p <+: fs.map Fill.delta → 0 ≤ b.qty + (f.delta + p.sum) := by
      intro p hp
      rw [← List.sum_cons]
      exact hlong _ (List.prefix_cons_iff.2 (.inr ⟨p, rfl, hp⟩))
    have hnow : 0 ≤ b.qty + f.delta := by
      have hnil := hprefix [] List.nil_prefix
      rwa [List.sum_nil, add_zero] at hnil
    have hqty : (fillLong b f).qty = b.qty + f.delta := (updateLongBook_qty hb hf).trans (max_eq_right hnow)
    rw [run_cons, fill_never_short hf hnow, run_cons]
    apply ih _ hfs
    · intro p hp
      rw [hqty, add_assoc]
      exact hprefix p hp
    · rw [hqty]
      exact hnow

/-- **The two estimates** of a key's long position agree exactly when the key is not one of futures or its
balance was never lower than both zero and its end. -/
theorem same_long_iff (toUppercase : String → String) (rows : List ExchangeOrderRow) (key : PosKey) :
    let balance := (fillsOf toUppercase key (sortByCreated rows)).map Fill.delta
    longOf key (aggregateLongBooks toUppercase rows) =
        (booksOf key (aggregateLongBooksFromFills toUppercase rows)).long ↔
      isFutures key.segment = false ∨ ∀ p, p <+: balance → min 0 balance.sum ≤ p.sum := by
  intro balance
  have hpos : ∀ f ∈ fillsOf toUppercase key (sortByCreated rows), 0 < f.qty := fillsOf_qty_pos
  rw [longOf_aggregate, booksOf_aggregate]
  cases isFutures key.segment with
  | false =>
    rw [run_fill_false]
    simp only [true_or, iff_true]
    rfl
  | true =>
    have htracks := books_track empty_tracks hpos
    have hnet := run_net .flat (fillsOf toUppercase key (sortByCreated rows))
    have hestimate := htracks.long_qty
    rw [hnet] at hestimate
    have hlong : (run (Books.fill true) .empty (fillsOf toUppercase key (sortByCreated rows))).long.qty =
        max 0 balance.sum := hestimate.trans (congrArg (max 0) (zero_add _))
    have hrestart : (run fillLong .empty (fillsOf toUppercase key (sortByCreated rows))).qty =
        run restart 0 balance := long_restarts le_rfl hpos
    simp only [Bool.true_eq_false, false_or]
    constructor
    · intro heq
      rw [← run_restart_eq_iff, ← hrestart, heq, hlong]
    · intro hlow
      rcases le_or_gt 0 balance.sum with hend | hend
      · -- the balance never was negative: no short book came up
        have hprefix : ∀ p, p <+: balance → 0 ≤ Book.empty.qty + p.sum := by
          intro p hp
          have hp := hlow p hp
          rw [min_eq_left hend] at hp
          exact hp.trans (zero_add _).ge
        have hnever := run_never_short le_rfl hpos hprefix
        exact (congrArg Books.long hnever).symm
      · -- it ended below zero: neither has a long position
        have hzero : max 0 balance.sum = 0 := max_eq_left hend.le
        have hempty := run_fillLong_zero (hrestart.trans (((run_restart_eq_iff balance).2 hlow).trans hzero))
        rw [hzero] at hlong
        rw [hempty]
        exact Book.ext hlong.symm (htracks.own_ok hlong).symm

/-! ## Sold short and bought back -/

/-- One is sold short at 100 and bought back at 90, and nothing is left; here one is held for 90. -/
theorem bought_back_is_long :
    let rows := [makeOrder "futures" "sell" "1" "100" 0, makeOrder "futures" "buy" "1" "90" 1]
    let key : PosKey := ⟨2, "binance", "futures", "SOLUSDT"⟩
    longOf key (aggregateLongBooks id rows) = ⟨1, 90⟩ ∧
      (booksOf key (aggregateLongBooksFromFills id rows)).long = ⟨0, 0⟩ := by
  decide +kernel

end Qtss.Worker.PositionManager
