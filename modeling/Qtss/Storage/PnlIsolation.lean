import Qtss.Storage.PnlRollups
/-
# Rollups of one symbol and rows of another (`qtss-storage/src/pnl.rs`)

The rollups are kept under org, exchange, segment and symbol (`RollupAggKey`, pnl.rs:65), the positions under
org, exchange, symbol and position side (:512): a symbol that an exchange lists in two segments has one
position for both. `isolated_iff`: the realised pnl, volume and closed trades of a symbol are those of its own
rows whatever else is in the table exactly when none of its rows moves a position or the symbol is an
instrument of no other segment.

For the way there `View` is what the rebuild knows of a symbol, and `viewOrder` what one of its own orders does
to that. For the way back, one order of the symbol is put between two of another segment: the same order with
its side turned round, and the same order. The first leaves it something to close, the second puts back the
position that it would have left.
-/

namespace Qtss.Storage.Pnl
open Keyed Runs

/-! ## What the rebuild knows of a symbol -/

/-- The columns of `pnl_rollups` that have no fees in them. -/
structure Shown where
  realizedPnl : ℚ
  volume : ℚ
  closedTradeCount : ℤ
deriving DecidableEq

def RollupAcc.shown (v : RollupAcc) : Shown := ⟨v.realizedPnl, v.volume, v.closedTradeCount⟩

def Shown.zero : Shown := ⟨0, 0, 0⟩

def Shown.add (a b : Shown) : Shown :=
  ⟨a.realizedPnl + b.realizedPnl, a.volume + b.volume, a.closedTradeCount + b.closedTradeCount⟩

/-- The rollup rows of a symbol by bucket and start. -/
abbrev Rows := PnlBucket × DateTime → Option Shown

def SymbolKey.rollupKey (k : SymbolKey) (period : PnlBucket × DateTime) : RollupAggKey :=
  ⟨k.orgId, k.exchange, k.segment, k.symbol, period.1, period.2⟩

def rowsOf (k : SymbolKey) (acc : RollupMap) : Rows := fun period => (acc.lookup (k.rollupKey period)).map (·.shown)

@[ext] structure View where
  rows : Rows
  pos : PositionSideKey → PositionAcc

def view (k : SymbolKey) (s : Rebuild) : View where
  rows := rowsOf k s.acc
  pos side := (s.pos.lookup ⟨k.orgId, k.exchange, k.symbol, side⟩).getD .empty

/-- What is added to the rows of an order's periods. -/
def addRows (o : OrderRow) (t : Shown) (rows : Rows) : Rows := fun period =>
  if period ∈ periodStarts o.updatedAt then some (((rows period).getD .zero).add t) else rows period

/-- An order of a known instrument. -/
def countedOrder (db : RollupDb) (o : OrderRow) : Option ParsedBinanceOrder :=
  match parseBinanceOrder o.venueResponse, db.instrument o.exchange o.segment o.symbol with
  | some parsed, some _ => some parsed
  | _, _ => none

/-- The position after the order's fills, and what they realise and close. -/
def tally (p : PositionAcc) (parsed : ParsedBinanceOrder) : Tally :=
  (positionFills parsed).foldl Tally.fill ⟨p, 0, 0⟩

/-- What an order of the symbol does to its view. -/
def viewOrder (db : RollupDb) (v : View) (o : OrderRow) : View :=
  match countedOrder db o with
  | none => v
  | some parsed =>
    let t := tally (v.pos parsed.positionSide) parsed
    { rows := addRows o ⟨t.realized, quoteVolume parsed, t.closed⟩ v.rows
      pos := Function.update v.pos parsed.positionSide t.pos }

/-! ## One step -/

section step
variable {db : RollupDb} {k : SymbolKey} {s : Rebuild} {o : OrderRow}

theorem lookup_addTotals (totals : RollupAcc) {keys : List RollupAggKey} (h : keys.Nodup) (acc : RollupMap)
    (key : RollupAggKey) : (keys.foldl (addTotals totals) acc).lookup key =
      if key ∈ keys then some (((acc.lookup key).getD .zero).add totals) else acc.lookup key := by
  induction keys generalizing acc with
  | nil => simp
  | cons j keys ih =>
    obtain ⟨hj, hkeys⟩ := List.nodup_cons.1 h
    rw [List.foldl_cons, ih hkeys, addTotals, lookup_insert_eq]
    by_cases hkey : key = j
    · subst hkey
      simp [hj]
    · simp [hkey]

theorem nodup_rollupKeys (o : OrderRow) : o.rollupKeys.Nodup := by
  simp [OrderRow.rollupKeys, periodStarts]

theorem mem_rollupKeys {period : PnlBucket × DateTime} :
    k.rollupKey period ∈ o.rollupKeys ↔ o.symbolKey = k ∧ period ∈ periodStarts o.updatedAt := by
  obtain ⟨bucket, start⟩ := period
  obtain ⟨orgId, exchange, segment, symbol⟩ := k
  simp only [OrderRow.rollupKeys, List.mem_map, SymbolKey.rollupKey, RollupAggKey.mk.injEq,
    OrderRow.symbolKey, SymbolKey.mk.injEq]
  constructor
  · rintro ⟨⟨b, t⟩, h, horg, hexchange, hsegment, hsymbol, rfl, rfl⟩
    exact ⟨⟨horg, hexchange, hsegment, hsymbol⟩, h⟩
  · rintro ⟨⟨horg, hexchange, hsegment, hsymbol⟩, h⟩
    exact ⟨_, h, horg, hexchange, hsegment, hsymbol, rfl, rfl⟩

theorem shown_add (a b : RollupAcc) : (a.add b).shown = a.shown.add b.shown := rfl

theorem rowsOf_addTotals_own (totals : RollupAcc) (acc : RollupMap) (h : o.symbolKey = k) :
    rowsOf k (o.rollupKeys.foldl (addTotals totals) acc) = addRows o totals.shown (rowsOf k acc) := by
  funext period
  simp only [rowsOf, addRows]
  rw [lookup_addTotals totals (nodup_rollupKeys o)]
  by_cases hp : period ∈ periodStarts o.updatedAt
  · rw [if_pos (mem_rollupKeys.2 ⟨h, hp⟩), if_pos hp, Option.map_some, shown_add]
    cases acc.lookup (k.rollupKey period) <;> rfl
  · rw [if_neg (fun hmem => hp (mem_rollupKeys.1 hmem).2), if_neg hp]

theorem rowsOf_addTotals_other (totals : RollupAcc) (acc : RollupMap) (h : o.symbolKey ≠ k) :
    rowsOf k (o.rollupKeys.foldl (addTotals totals) acc) = rowsOf k acc := by
  funext period
  unfold rowsOf
  rw [lookup_addTotals totals (nodup_rollupKeys o), if_neg fun hmem => h (mem_rollupKeys.1 hmem).1]

/-- The two ways an order can go. -/
theorem rebuildOrder_cases (db : RollupDb) (s : Rebuild) (o : OrderRow) :
    (countedOrder db o = none ∧ (rebuildOrder db s o).acc = s.acc ∧ (rebuildOrder db s o).pos = s.pos) ∨
    ∃ parsed inst, countedOrder db o = some parsed ∧
      db.instrument o.exchange o.segment o.symbol = some inst ∧
      (rebuildOrder db s o).acc = o.rollupKeys.foldl (addTotals (bookOrder db o inst parsed
        ((s.pos.lookup (o.posKey parsed.positionSide)).getD .empty) s.priceCache).totals) s.acc ∧
      (rebuildOrder db s o).pos = s.pos.insert (o.posKey parsed.positionSide)
        (tally ((s.pos.lookup (o.posKey parsed.positionSide)).getD .empty) parsed).pos := by
  unfold rebuildOrder countedOrder
  cases parseBinanceOrder o.venueResponse with
  | none => exact .inl ⟨rfl, rfl, rfl⟩
  | some parsed =>
    cases hinst : db.instrument o.exchange o.segment o.symbol with
    | none => exact .inl ⟨rfl, rfl, rfl⟩
    | some inst =>
      refine .inr ⟨parsed, inst, rfl, rfl, rfl, ?_⟩
      have hspec := (bookOrder_spec db o inst parsed
        ((s.pos.lookup (o.posKey parsed.positionSide)).getD .empty) s.priceCache).1
      exact congrArg (s.pos.insert (o.posKey parsed.positionSide)) (congrArg Tally.pos hspec)

theorem bookOrder_shown (inst : InstrumentAssets) (parsed : ParsedBinanceOrder) (p : PositionAcc)
    (cache : PriceCache) : (bookOrder db o inst parsed p cache).totals.shown =
      ⟨(tally p parsed).realized, quoteVolume parsed, (tally p parsed).closed⟩ := by
  obtain ⟨htally, hvolume⟩ := bookOrder_spec db o inst parsed p cache
  have hrealized := congrArg Tally.realized htally
  have hclosed := congrArg Tally.closed htally
  simp only [Booking.tally] at hrealized hclosed
  simp only [RollupAcc.shown, Shown.mk.injEq]
  exact ⟨hrealized, hvolume, hclosed⟩

/-- The positions of a symbol are moved by the orders of all its segments. -/
theorem pos_same (hkey : ∀ side, o.posKey side = ⟨k.orgId, k.exchange, k.symbol, side⟩) :
    (view k (rebuildOrder db s o)).pos = (viewOrder db (view k s) o).pos := by
  unfold viewOrder
  rcases rebuildOrder_cases db s o with ⟨hnone, hacc, hpos⟩ | ⟨parsed, inst, hcounted, -, hacc, hpos⟩
  · simp only [hnone, view, hpos]
  · simp only [hcounted, view, hpos]
    funext side
    rw [← hkey side, lookup_insert_eq]
    by_cases hside : side = parsed.positionSide
    · subst hside
      rw [if_pos rfl, Option.getD_some, Function.update_self, hkey]
    · have hne : o.posKey side ≠ o.posKey parsed.positionSide := fun he =>
        hside (congrArg PosKey.positionSide he)
      rw [if_neg hne, Function.update_of_ne hside, hkey]

/-- **An order of the symbol** acts on the view alone. -/
theorem view_own (h : o.symbolKey = k) : view k (rebuildOrder db s o) = viewOrder db (view k s) o := by
  subst h
  have hpos : (view o.symbolKey (rebuildOrder db s o)).pos = (viewOrder db (view o.symbolKey s) o).pos :=
    pos_same fun _ => rfl
  have hrows : (view o.symbolKey (rebuildOrder db s o)).rows = (viewOrder db (view o.symbolKey s) o).rows := by
    unfold viewOrder
    rcases rebuildOrder_cases db s o with ⟨hnone, hacc, -⟩ | ⟨parsed, inst, hcounted, -, hacc, -⟩
    · simp only [hnone, view, hacc]
    · simp only [hcounted, view, hacc, rowsOf_addTotals_own _ _ rfl, bookOrder_shown]
      rfl
  exact View.ext hrows hpos

/-- An order of anything else leaves the rows alone. -/
theorem rows_other (h : o.symbolKey ≠ k) : (view k (rebuildOrder db s o)).rows = (view k s).rows := by
  rcases rebuildOrder_cases db s o with ⟨-, hacc, -⟩ | ⟨parsed, inst, -, -, hacc, -⟩
  · simp only [view, hacc]
  · simp only [view, hacc, rowsOf_addTotals_other _ _ h]

/-- The exchange lists the symbol in another segment as well. -/
def Shared (db : RollupDb) (k : SymbolKey) : Prop :=
  ∃ segment, segment ≠ k.segment ∧ (db.instrument k.exchange segment k.symbol).isSome

/-- Where it does not, it leaves the positions alone too. -/
theorem view_other (hshared : ¬ Shared db k) (h : o.symbolKey ≠ k) :
    view k (rebuildOrder db s o) = view k s := by
  have hrows : (view k (rebuildOrder db s o)).rows = (view k s).rows := rows_other h
  rcases rebuildOrder_cases db s o with ⟨-, hacc, hpos⟩ | ⟨parsed, inst, -, hinst, hacc, hpos⟩
  · simp only [view, hacc, hpos]
  · have hpos' : (view k (rebuildOrder db s o)).pos = (view k s).pos := by
      funext side
      have hne : (⟨k.orgId, k.exchange, k.symbol, side⟩ : PosKey) ≠ o.posKey parsed.positionSide := by
        intro he
        simp only [OrderRow.posKey, PosKey.mk.injEq] at he
        obtain ⟨horg, hexchange, hsymbol, -⟩ := he
        apply hshared
        refine ⟨o.segment, fun hsegment => h ?_, ?_⟩
        · rw [OrderRow.symbolKey, ← horg, ← hexchange, ← hsymbol, hsegment]
        · rw [hexchange, hsymbol, hinst]
          rfl
      simp only [view, hpos, lookup_insert_eq, hne, if_false]
    exact View.ext hrows hpos'

end step

/-! ## Sides -/

/-- The sign of a fill. -/
def sideSign (side : String) : ℚ :=
  if eqIgnoreAsciiCase side "BUY" then 1 else if eqIgnoreAsciiCase side "SELL" then -1 else 0

theorem signedQtyDelta_eq (side : String) (positionSide : PositionSideKey) (qty : ℚ) :
    signedQtyDelta side positionSide qty = sideSign side * qty := by
  have hboth : ¬ (eqIgnoreAsciiCase side "BUY" ∧ eqIgnoreAsciiCase side "SELL") := by
    rintro ⟨hbuy, hsell⟩
    have heq : Execution.Dry.toAsciiUppercase "BUY" = Execution.Dry.toAsciiUppercase "SELL" :=
      (eq_of_beq hbuy).symm.trans (eq_of_beq hsell)
    exact absurd heq (by decide +kernel)
  unfold signedQtyDelta sideSign
  by_cases hbuy : eqIgnoreAsciiCase side "BUY" <;> by_cases hsell : eqIgnoreAsciiCase side "SELL"
  · exact absurd ⟨hbuy, hsell⟩ hboth
  all_goals cases positionSide <;> simp [hbuy, hsell]

/-- The other side. -/
def turnedSide (side : String) : String := if eqIgnoreAsciiCase side "BUY" then "SELL" else "BUY"

theorem sideSign_turnedSide {side : String} (h : sideSign side ≠ 0) :
    sideSign (turnedSide side) = -sideSign side := by
  have hbuy : sideSign "BUY" = 1 := by decide +kernel
  have hsell : sideSign "SELL" = -1 := by decide +kernel
  have hcases : sideSign side = if eqIgnoreAsciiCase side "BUY" then 1 else
      if eqIgnoreAsciiCase side "SELL" then -1 else 0 := rfl
  unfold turnedSide
  by_cases hb : eqIgnoreAsciiCase side "BUY"
  · rw [if_pos hb, hsell, hcases, if_pos hb]
  · rw [if_neg hb] at hcases ⊢
    by_cases hs : eqIgnoreAsciiCase side "SELL"
    · rw [hbuy, hcases, if_pos hs, neg_neg]
    · rw [if_neg hs] at hcases
      exact absurd hcases h

/-- What an order executed, whichever side it was on: quantity and price. -/
def lots (parsed : ParsedBinanceOrder) : List (ℚ × ℚ) :=
  if parsed.fills ≠ [] then parsed.fills.map fun f => (f.qty, f.price)
  else if parsed.executedQty > 0 ∧ parsed.cummQuote / parsed.executedQty > 0 then
    [(parsed.executedQty, parsed.cummQuote / parsed.executedQty)]
  else []

def signed (σ : ℚ) (ls : List (ℚ × ℚ)) : List (ℚ × ℚ) := ls.map fun l => (σ * l.1, l.2)

theorem positionFills_eq (parsed : ParsedBinanceOrder) :
    positionFills parsed = signed (sideSign parsed.side) (lots parsed) := by
  unfold positionFills lots signed
  simp only [signedQtyDelta_eq]
  split
  · rw [List.map_map]
    rfl
  · split <;> rfl

theorem parseBinanceFills_pos {v : Json} {f : BinanceFill} (h : f ∈ parseBinanceFills v) :
    0 < f.qty ∧ 0 < f.price := by
  unfold parseBinanceFills at h
  split at h
  · cases h
  · obtain ⟨x, -, hx⟩ := List.mem_filterMap.1 h
    unfold parseBinanceFill at hx
    cases hqty : decFromStrField x "qty" with
    | none => simp [hqty] at hx
    | some qty =>
      cases hprice : decFromStrField x "price" with
      | none => simp [hqty, hprice] at hx
      | some price =>
        simp only [hqty, hprice, Option.bind_eq_bind, Option.bind_some, ite_eq_iff, reduceCtorEq, and_false,
          or_false, Option.some.injEq] at hx
        obtain ⟨hpos, rfl⟩ := hx
        exact hpos

/-- The quantities of a payload that counts. -/
def executed (v : Json) : Option (ℚ × ℚ) := do
  let status ← (← v.get "status").asStr
  if !countedStatus status then none
  else
    let executedQty ← decimalFromStr ((← v.get "executedQty").asStr.getD "0")
    if executedQty ≤ 0 then none
    else
      let cummQuote ← decimalFromStr ((← v.get "cummulativeQuoteQty").asStr.getD "0")
      some (executedQty, cummQuote)

theorem parseBinanceOrder_eq (v : Json) : parseBinanceOrder v = (executed v).map fun (executedQty, cummQuote) =>
    ⟨executedQty, cummQuote, ((v.get "side").bind Json.asStr).getD "", positionSideKey v, parseBinanceFills v⟩ := by
  unfold parseBinanceOrder executed
  simp only [Option.bind_eq_bind, Option.map_bind, Function.comp_def, apply_ite (Option.map _), Option.map_none,
    Option.map_some]

theorem lots_pos {v : Json} {parsed : ParsedBinanceOrder} (h : parseBinanceOrder v = some parsed) :
    ∀ l ∈ lots parsed, 0 < l.1 ∧ 0 < l.2 := by
  intro l hl
  unfold lots at hl
  split at hl
  · obtain ⟨f, hf, rfl⟩ := List.mem_map.1 hl
    rw [parseBinanceOrder_eq] at h
    obtain ⟨_, -, rfl⟩ := Option.map_eq_some_iff.1 h
    exact parseBinanceFills_pos hf
  · split at hl
    · rename_i hpos
      obtain rfl := List.mem_singleton.1 hl
      exact hpos
    · cases hl

/-- The same payload with another side. -/
theorem parseBinanceOrder_set_side {v y : Json} (hside : v.get "side" = some y) (s : String) :
    parseBinanceOrder (v.set "side" (.str s)) = (parseBinanceOrder v).map fun p => { p with side := s } := by
  have hexecuted : executed (v.set "side" (.str s)) = executed v := by
    simp [executed]
  have hfills : parseBinanceFills (v.set "side" (.str s)) = parseBinanceFills v := by
    simp [parseBinanceFills]
  have hps : positionSideKey (v.set "side" (.str s)) = positionSideKey v := by
    simp [positionSideKey]
  rw [parseBinanceOrder_eq, parseBinanceOrder_eq, hexecuted, hfills, hps, get_set_eq hside, Option.map_map]
  rfl

/-! ## Lots of one side -/

section lots
variable {σ : ℚ} {ls : List (ℚ × ℚ)} {t : Tally}

/-- Fills of nothing do nothing. -/
theorem foldl_still {fs : List (ℚ × ℚ)} (h : ∀ f ∈ fs, f.1 = 0) (t : Tally) : fs.foldl Tally.fill t = t := by
  induction fs generalizing t with
  | nil => rfl
  | cons f fs ih =>
    obtain ⟨hf, hfs⟩ := List.forall_mem_cons.1 h
    have hfill : t.fill f = t := by simp [Tally.fill, applyFillToPosition, hf]
    rw [List.foldl_cons, hfill]
    exact ih hfs t

/-- Lots of one side take the position further to that side and close nothing. -/
theorem foldl_grow (hσ : σ ≠ 0) (hls : ∀ l ∈ ls, 0 < l.1 ∧ 0 < l.2) (ht : 0 ≤ t.pos.qty * σ) :
    ((signed σ ls).foldl Tally.fill t).closed = t.closed := by
  induction ls generalizing t with
  | nil => rfl
  | cons l ls ih =>
    obtain ⟨⟨hqty, hprice⟩, hls⟩ := List.forall_mem_cons.1 hls
    have hd : σ * l.1 ≠ 0 := mul_ne_zero hσ hqty.ne'
    have hstep : (t.fill (σ * l.1, l.2)).closed = t.closed ∧ 0 ≤ (t.fill (σ * l.1, l.2)).pos.qty * σ := by
      unfold Tally.fill
      by_cases hq : t.pos.qty = 0
      · rw [apply_open hd hprice hq]
        refine ⟨add_zero _, ?_⟩
        rw [mul_right_comm]
        exact mul_nonneg (mul_self_nonneg σ) hqty.le
      · have hadd : 0 < t.pos.qty * (σ * l.1) := by
          rw [← mul_assoc]
          exact mul_pos (lt_of_le_of_ne ht (mul_ne_zero hq hσ).symm) hqty
        rw [apply_add hprice hadd]
        refine ⟨add_zero _, ?_⟩
        rw [add_mul, mul_right_comm]
        exact add_nonneg ht (mul_nonneg (mul_self_nonneg σ) hqty.le)
    rw [signed, List.map_cons, List.foldl_cons]
    exact (ih hls hstep.2).trans hstep.1

/-- Lots of one side bring an equal position of the other side to its end. -/
theorem foldl_unwind (hσ : σ ≠ 0) (hls : ∀ l ∈ ls, 0 < l.1 ∧ 0 < l.2) (hne : ls ≠ [])
    (ht : t.pos.qty = -(σ * (ls.map (·.1)).sum)) :
    ((signed σ ls).foldl Tally.fill t).pos = .empty ∧
      ((signed σ ls).foldl Tally.fill t).closed = t.closed + 1 := by
  induction ls generalizing t with
  | nil => exact absurd rfl hne
  | cons l ls ih =>
    obtain ⟨⟨hqty, hprice⟩, hls⟩ := List.forall_mem_cons.1 hls
    have hd : σ * l.1 ≠ 0 := mul_ne_zero hσ hqty.ne'
    rw [List.map_cons, List.sum_cons] at ht
    rw [signed, List.map_cons, List.foldl_cons]
    cases ls with
    | nil =>
      -- the last lot takes what is left
      have hz : t.pos.qty + σ * l.1 = 0 := by
        rw [ht]
        simp
      have hq : t.pos.qty ≠ 0 := fun h0 => hd (by rw [← hz, h0, zero_add])
      have hclose := apply_close (d := σ * l.1) hprice hq hz
      simp only [List.map_nil, List.foldl_nil, Tally.fill, hclose]
      exact ⟨rfl, rfl⟩
    | cons l' ls =>
      have hrest : 0 < (((l' :: ls).map (·.1)).sum : ℚ) := by
        apply List.sum_pos
        · intro x hx
          obtain ⟨m, hm, rfl⟩ := List.mem_map.1 hx
          exact (hls m hm).1
        · simp
      have hneg : t.pos.qty * (σ * l.1) < 0 := by
        have hsq : 0 < σ * σ := mul_self_pos.2 hσ
        rw [ht]
        nlinarith [mul_pos hsq (mul_pos (add_pos hqty hrest) hqty)]
      have hlt : |σ * l.1| < |t.pos.qty| := by
        rw [ht, abs_neg, abs_mul, abs_mul, abs_of_pos hqty, abs_of_pos (add_pos hqty hrest)]
        exact mul_lt_mul_of_pos_left (lt_add_of_pos_right _ hrest) (abs_pos.2 hσ)
      have hreduce := apply_reduce hprice hneg hlt
      have hstep : t.fill (σ * l.1, l.2) =
          ⟨{ t.pos with qty := t.pos.qty + σ * l.1 },
            t.realized + -(σ * l.1) * (l.2 - t.pos.avgCostQuotePerBase), t.closed⟩ := by
        simp only [Tally.fill, hreduce]
        simp
      have hih := ih (t := t.fill (σ * l.1, l.2)) hls (by simp) (by rw [hstep, ht]; ring)
      rw [hstep] at hih ⊢
      exact hih

/-- From nothing, lots of one side make a position of their sum. -/
theorem foldl_qty (hσ : σ ≠ 0) (hls : ∀ l ∈ ls, 0 < l.1 ∧ 0 < l.2) (t : Tally) :
    ((signed σ ls).foldl Tally.fill t).pos.qty = t.pos.qty + σ * (ls.map (·.1)).sum := by
  induction ls generalizing t with
  | nil => simp [signed]
  | cons l ls ih =>
    obtain ⟨⟨hqty, hprice⟩, hls⟩ := List.forall_mem_cons.1 hls
    have hstep : (t.fill (σ * l.1, l.2)).pos.qty = t.pos.qty + σ * l.1 := by
      let f : Fill := ⟨σ * l.1, l.2, mul_ne_zero hσ hqty.ne', hprice⟩
      have hbook := congrArg AverageCost.Book.net (fill_toBook t.pos f 0)
      rw [AverageCost.Book.fill_net] at hbook
      exact hbook
    rw [signed, List.map_cons, List.foldl_cons, List.map_cons, List.sum_cons]
    rw [signed] at ih
    rw [ih hls, hstep]
    ring

end lots

/-! ## Isolation -/

/-- The rows come in the order of their last update. -/
def ByUpdate (orders : List OrderRow) : Prop := orders.Pairwise fun a b => a.updatedAt ≤ b.updatedAt

/-- The order moves a position. -/
def Moves (db : RollupDb) (o : OrderRow) : Prop :=
  ∃ parsed, countedOrder db o = some parsed ∧ ∃ f ∈ positionFills parsed, f.1 ≠ 0

/-- What is written for a symbol is the same for every table that has the same rows of the symbol. -/
def Isolated (db : RollupDb) (k : SymbolKey) (orders : List OrderRow) : Prop :=
  ∀ orders', ByUpdate orders' → (orders'.filter fun o => o.symbolKey = k) = (orders.filter fun o => o.symbolKey = k) →
    rowsOf k (rebuild db orders').1 = rowsOf k (rebuild db orders).1

section isolation
variable {db : RollupDb} {k : SymbolKey} {s : Rebuild} {o : OrderRow} {parsed : ParsedBinanceOrder}

theorem viewOrder_still (h : ¬ Moves db o) (v : View) : viewOrder db v o =
    match countedOrder db o with
    | none => v
    | some parsed => { v with rows := addRows o ⟨0, quoteVolume parsed, 0⟩ v.rows } := by
  unfold viewOrder
  cases hcounted : countedOrder db o with
  | none => rfl
  | some parsed =>
    have hstill : ∀ f ∈ positionFills parsed, f.1 = 0 := by
      intro f hf
      by_contra hne
      exact h ⟨parsed, hcounted, f, hf, hne⟩
    have htally : tally (v.pos parsed.positionSide) parsed = ⟨v.pos parsed.positionSide, 0, 0⟩ :=
      foldl_still hstill _
    simp only [htally, Function.update_eq_self]

/-- What an order that moves nothing does to the rows. -/
def rowsOrder (db : RollupDb) (rows : Rows) (o : OrderRow) : Rows :=
  match countedOrder db o with
  | none => rows
  | some parsed => addRows o ⟨0, quoteVolume parsed, 0⟩ rows

/-- Where no order of the symbol moves a position, its rows are made by its own orders. -/
theorem rows_of_still {orders : List OrderRow} (h : ∀ o ∈ orders, o.symbolKey = k → ¬ Moves db o) :
    rowsOf k (rebuild db orders).1 =
      run (rowsOrder db) (rowsOf k ∅) (orders.filter fun o => o.symbolKey = k) := by
  refine @run_view Rebuild OrderRow (rebuildOrder db) Rows (fun s => rowsOf k s.acc) (rowsOrder db)
    (fun o => decide (o.symbolKey = k)) (fun o => o.symbolKey = k → ¬ Moves db o) ?_ ?_ .start orders h
  · intro s o hstill hmine
    have hk : o.symbolKey = k := of_decide_eq_true hmine
    have hview : (view k (rebuildOrder db s o)).rows = (viewOrder db (view k s) o).rows :=
      congrArg View.rows (view_own hk)
    rw [viewOrder_still (hstill hk)] at hview
    refine hview.trans ?_
    unfold rowsOrder
    split <;> rfl
  · intro s o _ hother
    exact rows_other (of_decide_eq_false hother)

/-- Where the symbol is in one segment only, its view is made by its own orders. -/
theorem view_of_single (hshared : ¬ Shared db k) (orders : List OrderRow) :
    view k (run (rebuildOrder db) .start orders) =
      run (viewOrder db) (view k .start) (orders.filter fun o => o.symbolKey = k) := by
  refine @run_view Rebuild OrderRow (rebuildOrder db) View (view k) (viewOrder db)
    (fun o => decide (o.symbolKey = k)) (fun _ => True) ?_ ?_ .start orders fun _ _ => trivial
  · exact fun s o _ hmine => view_own (of_decide_eq_true hmine)
  · exact fun s o _ hother => view_other hshared (of_decide_eq_false hother)

theorem isolated_of (orders : List OrderRow)
    (h : (∀ o ∈ orders, o.symbolKey = k → ¬ Moves db o) ∨ ¬ Shared db k) : Isolated db k orders := by
  intro orders' _ hown
  rcases h with hstill | hsingle
  · have hstill' : ∀ o ∈ orders', o.symbolKey = k → ¬ Moves db o := by
      intro o ho hk
      have hmem : o ∈ orders'.filter fun o => o.symbolKey = k := List.mem_filter.2 ⟨ho, by simp [hk]⟩
      rw [hown] at hmem
      exact hstill o (List.mem_filter.1 hmem).1 hk
    rw [rows_of_still hstill, rows_of_still hstill', hown]
  · have hview : view k (run (rebuildOrder db) .start orders') = view k (run (rebuildOrder db) .start orders) := by
      rw [view_of_single hsingle, view_of_single hsingle, hown]
    exact congrArg View.rows hview

/-! ## The other way: a symbol of two segments -/

/-- The order in another segment. -/
def OrderRow.moved (o : OrderRow) (segment : String) : OrderRow := { o with segment := segment }

def OrderRow.side (o : OrderRow) : String := ((o.venueResponse.get "side").bind Json.asStr).getD ""

/-- The order in another segment and on the other side. -/
def OrderRow.turned (o : OrderRow) (segment : String) : OrderRow :=
  { o with segment := segment, venueResponse := o.venueResponse.set "side" (.str (turnedSide o.side)) }

/-- The closed trades of a row. -/
def closedAt (rows : Rows) (period : PnlBucket × DateTime) : ℤ :=
  ((rows period).map (·.closedTradeCount)).getD 0

theorem closedAt_addRows (o : OrderRow) (t : Shown) (rows : Rows) (period : PnlBucket × DateTime) :
    closedAt (addRows o t rows) period =
      closedAt rows period + if period ∈ periodStarts o.updatedAt then t.closedTradeCount else 0 := by
  unfold closedAt addRows
  by_cases hp : period ∈ periodStarts o.updatedAt
  · simp only [hp, if_true, Option.map_some, Option.getD_some]
    cases rows period with
    | none => simp [Shown.zero, Shown.add]
    | some r => simp [Shown.add]
  · simp [hp]

theorem countedOrder_eq_some : countedOrder db o = some parsed ↔
    parseBinanceOrder o.venueResponse = some parsed ∧
      (db.instrument o.exchange o.segment o.symbol).isSome := by
  unfold countedOrder
  cases parseBinanceOrder o.venueResponse <;> cases db.instrument o.exchange o.segment o.symbol <;> simp

theorem side_of_parse (h : parseBinanceOrder o.venueResponse = some parsed) : parsed.side = o.side := by
  rw [parseBinanceOrder_eq] at h
  obtain ⟨_, -, rfl⟩ := Option.map_eq_some_iff.1 h
  rfl

theorem countedOrder_moved {segment : String} (h : countedOrder db o = some parsed)
    (hinst : (db.instrument o.exchange segment o.symbol).isSome) :
    countedOrder db (o.moved segment) = some parsed :=
  countedOrder_eq_some.2 ⟨(countedOrder_eq_some.1 h).1, hinst⟩

theorem countedOrder_turned {segment : String} (h : countedOrder db o = some parsed)
    (hside : sideSign o.side ≠ 0) (hinst : (db.instrument o.exchange segment o.symbol).isSome) :
    countedOrder db (o.turned segment) = some { parsed with side := turnedSide o.side } := by
  refine countedOrder_eq_some.2 ⟨?_, hinst⟩
  cases hget : o.venueResponse.get "side" with
  | none =>
    -- an order without a side is on neither
    have hempty : sideSign "" = 0 := by decide +kernel
    simp only [OrderRow.side, hget, Option.bind_none, Option.getD_none, hempty, ne_eq, not_true_eq_false] at hside
  | some y =>
    rw [OrderRow.turned, parseBinanceOrder_set_side hget, (countedOrder_eq_some.1 h).1]
    rfl

variable (db) in
/-- Views with the same positions go on to differ by what they differ by. -/
theorem closedAt_later {v w : View} (h : v.pos = w.pos) (orders : List OrderRow)
    (period : PnlBucket × DateTime) :
    closedAt (run (viewOrder db) v orders).rows period - closedAt (run (viewOrder db) w orders).rows period =
      closedAt v.rows period - closedAt w.rows period := by
  induction orders generalizing v w with
  | nil => rfl
  | cons o orders ih =>
    have hpos : (viewOrder db v o).pos = (viewOrder db w o).pos := by
      unfold viewOrder
      split
      · exact h
      · rw [h]
    rw [run_cons, run_cons, ih hpos]
    unfold viewOrder
    split
    · rfl
    · simp only [closedAt_addRows, h]
      ring

/-- Turned round, the order leaves it just what it takes to end. -/
theorem turned_then_ended (hpos : ∀ l ∈ lots parsed, 0 < l.1 ∧ 0 < l.2) (hlots : lots parsed ≠ [])
    (hside : sideSign parsed.side ≠ 0) :
    let t := tally (tally .empty { parsed with side := turnedSide parsed.side }).pos parsed
    t.pos = .empty ∧ t.closed = 1 := by
  have hneg : sideSign (turnedSide parsed.side) ≠ 0 := by
    rw [sideSign_turnedSide hside]
    exact neg_ne_zero.2 hside
  have hqty : (tally .empty { parsed with side := turnedSide parsed.side }).pos.qty =
      -(sideSign parsed.side * ((lots parsed).map (·.1)).sum) := by
    have hfold := foldl_qty hneg hpos ⟨.empty, 0, 0⟩
    rw [tally, positionFills_eq]
    refine hfold.trans ?_
    rw [sideSign_turnedSide hside, neg_mul]
    exact zero_add _
  have hend := foldl_unwind (t := ⟨_, 0, 0⟩) hside hpos hlots hqty
  rw [← positionFills_eq] at hend
  exact hend

theorem tally_empty_closed (hpos : ∀ l ∈ lots parsed, 0 < l.1 ∧ 0 < l.2)
    (hside : sideSign parsed.side ≠ 0) : (tally .empty parsed).closed = 0 := by
  rw [tally, positionFills_eq]
  apply foldl_grow hside hpos
  exact (zero_mul _).ge

/-- Between its own two images in another segment, the order moves the positions as it does alone and closes
one more trade. -/
theorem between {segment : String} (hcounted : countedOrder db o = some parsed) (hside : sideSign o.side ≠ 0)
    (hlots : lots parsed ≠ []) (hempty : (view k s).pos = fun _ => .empty) (hk : o.symbolKey = k)
    (hseg : segment ≠ k.segment) (hinst : (db.instrument k.exchange segment k.symbol).isSome) :
    let s' := run (rebuildOrder db) s [o.turned segment, o, o.moved segment]
    (view k s').pos = (view k (rebuildOrder db s o)).pos ∧
      ∀ period ∈ periodStarts o.updatedAt,
        closedAt (view k s').rows period = closedAt (view k (rebuildOrder db s o)).rows period + 1 := by
  subst hk
  have hparse := (countedOrder_eq_some.1 hcounted).1
  have hpos := lots_pos hparse
  have hturned := countedOrder_turned hcounted hside hinst
  have hmoved := countedOrder_moved hcounted hinst
  rw [← side_of_parse hparse] at hside hturned
  have hother : ∀ o' : OrderRow, o'.segment = segment → o'.symbolKey ≠ o.symbolKey := by
    rintro o' rfl h
    exact hseg (congrArg SymbolKey.segment h)
  obtain ⟨hended, hclosed⟩ := turned_then_ended hpos hlots hside
  let t := tally .empty parsed
  let t₀ := tally .empty { parsed with side := turnedSide parsed.side }
  let s₁ := rebuildOrder db s (o.turned segment)
  let s₂ := rebuildOrder db s₁ o
  let s₃ := rebuildOrder db s₂ (o.moved segment)
  -- the view after each of the three, and after the order alone
  have hrows₁ : (view o.symbolKey s₁).rows = (view o.symbolKey s).rows := rows_other (hother _ rfl)
  have hpos₁ : (view o.symbolKey s₁).pos = Function.update (fun _ => .empty) parsed.positionSide t₀.pos := by
    refine (pos_same (o := o.turned segment) fun _ => rfl).trans ?_
    simp only [viewOrder, hturned, hempty]
    rfl
  have hview₂ : view o.symbolKey s₂ =
      ⟨addRows o ⟨(tally t₀.pos parsed).realized, quoteVolume parsed, 1⟩ (view o.symbolKey s).rows,
        Function.update (fun _ => .empty) parsed.positionSide .empty⟩ := by
    refine (view_own rfl).trans ?_
    simp only [viewOrder, hcounted, hrows₁, hpos₁, Function.update_self, Function.update_idem]
    rw [hended, hclosed]
  have hrows₃ : (view o.symbolKey s₃).rows = (view o.symbolKey s₂).rows := rows_other (hother _ rfl)
  have hpos₃ : (view o.symbolKey s₃).pos = Function.update (fun _ => .empty) parsed.positionSide t.pos := by
    refine (pos_same (o := o.moved segment) fun _ => rfl).trans ?_
    simp only [viewOrder, hmoved, hview₂, Function.update_self, Function.update_idem]
    rfl
  have hview : view o.symbolKey (rebuildOrder db s o) =
      ⟨addRows o ⟨t.realized, quoteVolume parsed, 0⟩ (view o.symbolKey s).rows,
        Function.update (fun _ => .empty) parsed.positionSide t.pos⟩ := by
    refine (view_own rfl).trans ?_
    simp only [viewOrder, hcounted, hempty, tally_empty_closed hpos hside]
    rfl
  refine ⟨?_, ?_⟩
  · exact hpos₃.trans (congrArg View.pos hview).symm
  · intro period hperiod
    have h₃ : closedAt (view o.symbolKey s₃).rows period = closedAt (view o.symbolKey s).rows period + 1 := by
      rw [hrows₃, hview₂, closedAt_addRows, if_pos hperiod]
    have h₀ : closedAt (view o.symbolKey (rebuildOrder db s o)).rows period =
        closedAt (view o.symbolKey s).rows period := by
      rw [hview, closedAt_addRows, if_pos hperiod, add_zero]
    exact h₃.trans (congrArg (· + 1) h₀.symm)

theorem mover_cases (h : Moves db o) : ∃ parsed, countedOrder db o = some parsed ∧ sideSign o.side ≠ 0 ∧
    lots parsed ≠ [] := by
  obtain ⟨parsed, hcounted, f, hf, hne⟩ := h
  have hsign := side_of_parse (countedOrder_eq_some.1 hcounted).1
  rw [positionFills_eq, hsign] at hf
  obtain ⟨l, hl, rfl⟩ := List.mem_map.1 hf
  exact ⟨parsed, hcounted, left_ne_zero_of_mul hne, List.ne_nil_of_mem hl⟩

/-- No position is held before the first order of the symbol that moves one. -/
theorem pos_before {orders : List OrderRow} (h : ∀ o ∈ orders, o.symbolKey = k ∧ ¬ Moves db o) :
    (view k (run (rebuildOrder db) .start orders)).pos = fun _ => .empty := by
  refine run_invariant (J := fun s => (view k s).pos = fun _ => .empty)
    (K := fun o => o.symbolKey = k ∧ ¬ Moves db o) ?_ rfl h
  rintro s o hs ⟨hk, hstill⟩
  rw [view_own hk, viewOrder_still hstill]
  split
  · exact hs
  · exact hs

theorem view_run_own {orders : List OrderRow} (h : ∀ o ∈ orders, o.symbolKey = k) :
    view k (run (rebuildOrder db) s orders) = run (viewOrder db) (view k s) orders := by
  have hview := @run_view Rebuild OrderRow (rebuildOrder db) View (view k) (viewOrder db) (fun _ => true)
    (fun o => o.symbolKey = k) (fun _ _ hk _ => view_own hk) (fun _ _ _ h => by cases h) s orders h
  rwa [List.filter_true] at hview

theorem byUpdate_insert {before after : List OrderRow} {x y z : OrderRow} (h : ByUpdate (before ++ y :: after))
    (hx : x.updatedAt = y.updatedAt) (hz : z.updatedAt = y.updatedAt) :
    ByUpdate (before ++ [x, y, z] ++ after) := by
  simp only [ByUpdate, List.append_assoc, List.pairwise_append, List.pairwise_cons, List.mem_cons,
    List.cons_append, List.nil_append, forall_eq_or_imp, hx, hz, le_refl, true_and] at h ⊢
  obtain ⟨hbefore, ⟨hy, hafter⟩, hcross⟩ := h
  exact ⟨hbefore, ⟨hy, hy, hy, hafter⟩, fun a ha => ⟨(hcross a ha).1, (hcross a ha).1, hcross a ha⟩⟩

theorem filter_between {before after : List OrderRow} {x y z : OrderRow}
    (hkeys : ∀ a ∈ before ++ y :: after, a.symbolKey = k) (hx : x.symbolKey ≠ k) (hz : z.symbolKey ≠ k) :
    (before ++ [x, y, z] ++ after).filter (fun o => o.symbolKey = k) = before ++ y :: after := by
  simp only [List.forall_mem_append, List.forall_mem_cons] at hkeys
  obtain ⟨hbefore, hy, hafter⟩ := hkeys
  have hkeepBefore : before.filter (fun o => o.symbolKey = k) = before :=
    List.filter_eq_self.2 fun a ha => decide_eq_true (hbefore a ha)
  have hkeepAfter : after.filter (fun o => o.symbolKey = k) = after :=
    List.filter_eq_self.2 fun a ha => decide_eq_true (hafter a ha)
  simp [List.filter_append, hkeepBefore, hkeepAfter, hx, hy, hz]

end isolation

/-- **Isolation**: the realised pnl, volume and closed trades of a symbol depend on nothing but its own rows
exactly when none of these moves a position or no other segment lists the symbol. -/
theorem isolated_iff (db : RollupDb) (k : SymbolKey) (orders : List OrderRow) (hsorted : ByUpdate orders) :
    Isolated db k orders ↔ (∀ o ∈ orders, o.symbolKey = k → ¬ Moves db o) ∨ ¬ Shared db k := by
  classical
  refine ⟨fun hiso => ?_, isolated_of orders⟩
  by_contra hnot
  simp only [not_or, not_forall, not_not, exists_prop] at hnot
  obtain ⟨⟨m, hm, hmk, hmoves⟩, segment, hseg, hinst⟩ := hnot
  -- the first order of the symbol that moves a position, among the orders of the symbol
  let own := orders.filter fun o => o.symbolKey = k
  have hmown : m ∈ own := List.mem_filter.2 ⟨hm, by simp [hmk]⟩
  have hfind : (own.find? fun o => Moves db o).isSome := List.find?_isSome.2 ⟨m, hmown, by simp [hmoves]⟩
  obtain ⟨o, hfind⟩ := Option.isSome_iff_exists.1 hfind
  obtain ⟨hmover, before, after, hsplit, hbefore⟩ := List.find?_eq_some_iff_append.1 hfind
  have hkeys : ∀ x ∈ before ++ o :: after, x.symbolKey = k := by
    intro x hx
    rw [← hsplit] at hx
    simpa using (List.mem_filter.1 hx).2
  have hk : o.symbolKey = k := hkeys o (by simp)
  obtain ⟨parsed, hcounted, hside, hlots⟩ := mover_cases (of_decide_eq_true hmover)
  have hempty : (view k (run (rebuildOrder db) .start before)).pos = fun _ => .empty := by
    refine pos_before fun x hx => ⟨hkeys x (by simp [hx]), ?_⟩
    simpa using hbefore x hx
  obtain ⟨hpos, hclosed⟩ := between hcounted hside hlots hempty hk hseg hinst
  -- the table with the two rows of the other segment around it
  let crowded := before ++ [o.turned segment, o, o.moved segment] ++ after
  have hown : ByUpdate own := hsorted.filter _
  have hcrowded : ByUpdate crowded := byUpdate_insert (hsplit ▸ hown) rfl rfl
  have hother : ∀ x : OrderRow, x.segment = segment → x.symbolKey ≠ k := by
    rintro x rfl hx
    exact hseg (congrArg SymbolKey.segment hx)
  have hfilter : crowded.filter (fun o => o.symbolKey = k) = own := by
    rw [hsplit]
    exact filter_between hkeys (hother _ rfl) (hother _ rfl)
  have hrows : rowsOf k (rebuild db crowded).1 = rowsOf k (rebuild db own).1 := by
    have hsame : own.filter (fun o => o.symbolKey = k) = orders.filter fun o => o.symbolKey = k := by
      simp [own]
    exact (hiso crowded hcrowded hfilter).trans (hiso own hown hsame).symm
  have hafter : ∀ x ∈ after, x.symbolKey = k := fun x hx => hkeys x (by simp [hx])
  obtain ⟨period, hperiod⟩ : ∃ period, period ∈ periodStarts o.updatedAt := ⟨_, List.mem_cons_self⟩
  -- the closed trade of the crowded table stays one more through the rest
  have hlater := closedAt_later db hpos after period
  rw [← view_run_own hafter, ← view_run_own hafter, ← run_cons, ← run_append, ← run_append, ← run_append,
    ← List.append_assoc, ← hsplit, hclosed period hperiod] at hlater
  have heq : closedAt (view k (run (rebuildOrder db) .start crowded)).rows period =
      closedAt (view k (run (rebuildOrder db) .start own)).rows period := congrArg (closedAt · period) hrows
  linarith

/-! ## One symbol in two segments -/

def listedTwice : RollupDb where
  instrument _ segment _ := if segment = "spot" ∨ segment = "usdt_futures" then some ⟨"BTC", "USDT"⟩ else none
  assetPrice _ _ _ _ _ := none
  toUppercase := Execution.Dry.toAsciiUppercase

def filledOrder (segment side quote : String) : OrderRow where
  orgId := 1
  exchange := "binance"
  segment := segment
  symbol := "BTCUSDT"
  updatedAt := 1709208000
  venueResponse := .obj [("status", .str "FILLED"), ("side", .str side), ("executedQty", .str "1"),
    ("cummulativeQuoteQty", .str quote)]

/-- One is sold for 120 on the spot market, where none was bought. A purchase of one future for 100 makes it a
closed trade with a gain of 20. -/
theorem other_segment_shows :
    let sold := filledOrder "spot" "SELL" "120"
    let bought := filledOrder "usdt_futures" "BUY" "100"
    let shown := fun orders => rowsOf sold.symbolKey (rebuild listedTwice orders).1 (.daily, 1709164800)
    shown [sold] = some ⟨0, 120, 0⟩ ∧ shown [bought, sold] = some ⟨20, 120, 1⟩ := by
  decide +kernel

def listedOnce : RollupDb where
  instrument _ segment _ := if segment = "spot" then some ⟨"BTC", "USDT"⟩ else none
  assetPrice _ _ _ _ _ := none
  toUppercase := Execution.Dry.toAsciiUppercase

/-- Where only one segment lists the symbol, its rows stand for themselves. -/
theorem isolated_in_one_segment : Isolated listedOnce (filledOrder "spot" "BUY" "100").symbolKey
    [filledOrder "spot" "BUY" "100", filledOrder "spot" "SELL" "120"] := by
  refine (isolated_iff listedOnce _ _ (by simp [ByUpdate, filledOrder])).2 (.inr ?_)
  rintro ⟨segment, hseg, hinst⟩
  exact absurd hinst (by simpa [listedOnce, OrderRow.symbolKey, filledOrder] using hseg)

end Qtss.Storage.Pnl
