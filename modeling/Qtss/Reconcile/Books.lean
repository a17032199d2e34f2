import Mathlib.Algebra.BigOperators.Group.List.Basic
import Qtss.Reconcile.Snapshot
/-
# What a reconcile report says of the two books

`Snapshot.lean` has the code and what it reports of each symbol and client id. Here the report is
compared with the books the snapshots stand for: a *net position* per symbol (the total of its rows,
zero without one) and a *remaining quantity* per open order.

With one row per key the report is exactly the difference of the books (`reconcile_exact`). With
several rows per symbol, as a hedge-mode venue reports its long and short legs, it is not: the code
keeps one leg and drops the others. `rowOrderFree_iff` says for which snapshots the report is still
a function of the totals that no order of the rows changes.
-/

namespace Qtss.Reconcile
open Keyed

/-! ## Books -/

/-- The total signed quantity of a symbol; a missing symbol is flat. -/
def net (rows : List PositionRow) (sym : String) : ℚ :=
  ((rows.filter (·.symbol = sym)).map (·.netQty)).sum

/-- The remaining quantity of an open order, if there is one. -/
def remaining (rows : List OrderRow) (id : String) : Option ℚ :=
  (rows.find? (·.clientOrderId = id)).map (·.remainingQty)

/-- One row per symbol and per client id. -/
structure Snapshot.Distinct (s : Snapshot) : Prop where
  symbols : (s.positions.map (·.symbol)).Nodup
  clientOrderIds : (s.openOrders.map (·.clientOrderId)).Nodup

instance (s : Snapshot) : Decidable s.Distinct :=
  decidable_of_iff (_ ∧ _) ⟨fun h => ⟨h.1, h.2⟩, fun h => ⟨h.1, h.2⟩⟩

/-- One side is flat and the other is not, or the sides are opposite. -/
def Rogue (b e : ℚ) : Prop := Xor (b = 0) (e = 0) ∨ (0 < b ∧ e < 0) ∨ (b < 0 ∧ 0 < e)

def OrderDriftSide.swap : OrderDriftSide → OrderDriftSide
  | .brokerOnly => .engineOnly
  | .engineOnly => .brokerOnly
  | .quantityMismatch => .quantityMismatch

/-- What the two sides' remaining quantities of one id amount to. -/
def sideOf : Option ℚ → Option ℚ → Option OrderDriftSide
  | some _, none => some .brokerOnly
  | none, some _ => some .engineOnly
  | some b, some e => if b = e then none else some .quantityMismatch
  | none, none => none

/-- The report is the difference of the books of `b` and `e`. -/
structure Exact (b e : Snapshot) (tol : ReconcileTolerance) (r : ReconcileReport) : Prop where
  differs : ∀ sym, net b.positions sym ≠ net e.positions sym → ∃ d,
    r.positions.filter (·.symbol = sym) = [d]
    ∧ d.brokerQty = net b.positions sym ∧ d.engineQty = net e.positions sym
    ∧ d.absDelta = |net b.positions sym - net e.positions sym|
    ∧ (d.severity = .critical ↔ Rogue (net b.positions sym) (net e.positions sym))
    ∧ (d.severity = .soft ↔ ¬ Rogue (net b.positions sym) (net e.positions sym)
        ∧ |net b.positions sym - net e.positions sym| ≤ tol.positionQtyEps)
    ∧ (d.severity = .drift ↔ ¬ Rogue (net b.positions sym) (net e.positions sym)
        ∧ tol.positionQtyEps < |net b.positions sym - net e.positions sym|)
  agrees : ∀ sym, net b.positions sym = net e.positions sym →
    r.positions.filter (·.symbol = sym) = []
  orders : ∀ id, (r.orders.filter (·.clientOrderId = id)).map (·.side) =
    (sideOf (remaining b.openOrders id) (remaining e.openOrders id)).toList
  overall : r.overall.rank =
    (r.positions.map (·.severity.rank) ++ r.orders.map fun _ => DriftSeverity.drift.rank).foldr max 0
  clean : r.isClean ↔ (∀ sym, net b.positions sym = net e.positions sym)
    ∧ ∀ id, remaining b.openOrders id = remaining e.openOrders id

/-- `s` is the report `r` with broker and engine exchanged. -/
structure Mirrored (r s : ReconcileReport) : Prop where
  positions : s.positions =
    r.positions.map fun d => ⟨d.symbol, d.engineQty, d.brokerQty, d.absDelta, d.severity⟩
  orders : ∀ id, (s.orders.filter (·.clientOrderId = id)).map (·.side) =
    (r.orders.filter (·.clientOrderId = id)).map (·.side.swap)
  overall : s.overall = r.overall

/-! ## One row per key -/

section distinct
variable {α : Type*} {key : α → String}

theorem filter_of_nodup {rows : List α} (h : (rows.map key).Nodup) (k : String) :
    rows.filter (key · = k) = (rows.find? (key · = k)).toList := by
  induction rows with
  | nil => rfl
  | cons r rows ih =>
    obtain ⟨hr, hrows⟩ := List.nodup_cons.1 (List.map_cons ▸ h)
    by_cases hk : key r = k
    · have hnil : rows.filter (key · = k) = [] := by
        rw [List.filter_eq_nil_iff]
        intro x hx hxk
        exact hr (hk.trans (of_decide_eq_true hxk).symm ▸ List.mem_map_of_mem hx)
      simp [hk, hnil]
    · simp [hk, ih hrows]

theorem getLast?_toList (o : Option α) : o.toList.getLast? = o := by
  cases o <;> rfl

theorem lastQty_eq_net {rows : List PositionRow} (h : (rows.map (·.symbol)).Nodup) (sym : String) :
    lastQty rows sym = net rows sym := by
  rw [lastQty, net, filter_of_nodup h, getLast?_toList]
  cases rows.find? (·.symbol = sym) <;> simp

theorem lastOrder_eq_find {rows : List OrderRow} (h : (rows.map (·.clientOrderId)).Nodup)
    (id : String) : lastOrder rows id = rows.find? (·.clientOrderId = id) := by
  rw [lastOrder, filter_of_nodup h, getLast?_toList]

end distinct

/-! ## The severity of a symbol -/

section severity
variable {b e : ℚ} {tol : ReconcileTolerance}

theorem rogue_iff (h : b ≠ e) : Rogue b e ↔ b * e ≤ 0 := by
  have hxor : Xor (b = 0) (e = 0) ↔ b = 0 ∨ e = 0 := by
    simp only [Xor]
    constructor
    · rintro (⟨hb, -⟩ | ⟨he, -⟩)
      exacts [.inl hb, .inr he]
    · rintro (rfl | rfl)
      exacts [.inl ⟨rfl, h.symm⟩, .inr ⟨rfl, h⟩]
  rw [Rogue, hxor, mul_nonpos_iff]
  constructor
  · rintro ((rfl | rfl) | ⟨hb, he⟩ | ⟨hb, he⟩)
    · rcases le_total 0 e with he | he
      exacts [.inr ⟨le_rfl, he⟩, .inl ⟨le_rfl, he⟩]
    · rcases le_total 0 b with hb | hb
      exacts [.inl ⟨hb, le_rfl⟩, .inr ⟨hb, le_rfl⟩]
    · exact .inl ⟨hb.le, he.le⟩
    · exact .inr ⟨hb.le, he.le⟩
  · rintro (⟨hb, he⟩ | ⟨hb, he⟩)
    · rcases hb.eq_or_lt with hb | hb
      · exact .inl (.inl hb.symm)
      · rcases he.eq_or_lt with he | he
        exacts [.inl (.inr he), .inr (.inl ⟨hb, he⟩)]
    · rcases hb.eq_or_lt with hb | hb
      · exact .inl (.inl hb)
      · rcases he.eq_or_lt with he | he
        exacts [.inl (.inr he.symm), .inr (.inr ⟨hb, he⟩)]

theorem classifyPosition_of_ne (h : b ≠ e) :
    (classifyPosition b e |b - e| tol = .critical ↔ Rogue b e)
    ∧ (classifyPosition b e |b - e| tol = .soft ↔ ¬ Rogue b e ∧ |b - e| ≤ tol.positionQtyEps)
    ∧ (classifyPosition b e |b - e| tol = .drift ↔ ¬ Rogue b e ∧ tol.positionQtyEps < |b - e|) := by
  rw [classifyPosition_eq, if_neg h, rogue_iff h]
  split_ifs with hs heps
  · simp [hs]
  · simp [hs, heps]
  · simp [hs, heps, not_le.1 heps]

theorem classifyPosition_swap : classifyPosition e b |e - b| tol = classifyPosition b e |b - e| tol := by
  rw [classifyPosition_eq, classifyPosition_eq, mul_comm e b, abs_sub_comm e b]
  simp only [eq_comm (a := e)]

theorem positionDrift_swap (sym : String) :
    positionDrift tol sym e b = (positionDrift tol sym b e).map
      fun d => ⟨d.symbol, d.engineQty, d.brokerQty, d.absDelta, d.severity⟩ := by
  by_cases h : b = e
  · rw [positionDrift_none.2 h, positionDrift_none.2 h.symm, Option.map_none]
  · rw [positionDrift_of_ne h, positionDrift_of_ne (Ne.symm h), Option.map_some,
      classifyPosition_swap, abs_sub_comm e b]

end severity

theorem diffPositions_swap (bp ep : List PositionRow) (tol : ReconcileTolerance) :
    diffPositions ep bp tol = (diffPositions bp ep tol).map
      fun d => ⟨d.symbol, d.engineQty, d.brokerQty, d.absDelta, d.severity⟩ := by
  rw [diffPositions_eq, diffPositions_eq, List.map_filterMap]
  simp only [← positionDrift_swap]
  refine filterMap_ascending_congr positionDrift_of_not_mem fun sym h => ?_
  rw [positionDrift_swap, positionDrift_of_not_mem sym h, Option.map_none]

/-! ## The side of a client id -/

theorem orderDrift_side (id : String) (b e : Option OrderRow) :
    (orderDrift id b e).map (·.side) = sideOf (b.map (·.remainingQty)) (e.map (·.remainingQty)) := by
  cases b with
  | none => cases e <;> rfl
  | some b =>
    cases e with
    | none => rfl
    | some e =>
      by_cases h : e.remainingQty = b.remainingQty <;>
        simp [orderDrift, brokerDrift, engineDrift, sideOf, h, Ne.symm]

theorem sideOf_swap (b e : Option ℚ) : sideOf e b = (sideOf b e).map (·.swap) := by
  cases b with
  | none => cases e <;> rfl
  | some b =>
    cases e with
    | none => rfl
    | some e =>
      by_cases h : b = e
      · simp [sideOf, h]
      · simp [sideOf, h, Ne.symm h, OrderDriftSide.swap]

theorem sideOf_none {b e : Option ℚ} : sideOf b e = none ↔ b = e := by
  cases b with
  | none => cases e <;> simp [sideOf]
  | some b => cases e <;> simp [sideOf]

theorem diffOrders_sides (bo eo : List OrderRow) (id : String) :
    ((diffOrders bo eo).filter (·.clientOrderId = id)).map (·.side) =
      (sideOf ((lastOrder bo id).map (·.remainingQty))
        ((lastOrder eo id).map (·.remainingQty))).toList := by
  rw [diffOrders_filter, ← orderDrift_side]
  cases orderDrift id (lastOrder bo id) (lastOrder eo id) <;> rfl

/-! ## The roll-up -/

theorem maxSev_rank (a b : DriftSeverity) : (maxSev a b).rank = max a.rank b.rank := by
  unfold maxSev
  split <;> omega

theorem worst_rank (positions : List PositionDrift) (s : DriftSeverity) :
    (positions.foldl (fun worst p => maxSev worst p.severity) s).rank =
      max s.rank ((positions.map (·.severity.rank)).foldr max 0) := by
  induction positions generalizing s with
  | nil => simp
  | cons p positions ih =>
    rw [List.foldl_cons, ih, maxSev_rank, List.map_cons, List.foldr_cons, max_assoc]

theorem foldr_max_append (l m : List ℕ) :
    (l ++ m).foldr max 0 = max (l.foldr max 0) (m.foldr max 0) := by
  induction l with
  | nil => simp
  | cons a l ih => rw [List.cons_append, List.foldr_cons, List.foldr_cons, ih, max_assoc]

theorem foldr_max_const (orders : List OrderDrift) (n : ℕ) :
    (orders.map fun _ => n).foldr max 0 = if orders = [] then 0 else n := by
  induction orders with
  | nil => rfl
  | cons o orders ih =>
    rw [List.map_cons, List.foldr_cons, ih]
    split <;> simp

/-- The roll-up is the maximum, an order drift counting as `drift`. -/
theorem rollUp_rank (positions : List PositionDrift) (orders : List OrderDrift) :
    (rollUp positions orders).rank =
      (positions.map (·.severity.rank) ++ orders.map fun _ => DriftSeverity.drift.rank).foldr max 0 := by
  have hnone : DriftSeverity.none.rank = 0 := rfl
  rw [foldr_max_append, foldr_max_const]
  unfold rollUp
  by_cases h : orders = []
  · simp only [h, ne_eq, not_true_eq_false, if_false, if_true, worst_rank, hnone, Nat.zero_max,
      Nat.max_zero]
  · simp only [h, ne_eq, not_false_eq_true, if_true, if_false, maxSev_rank, worst_rank, hnone,
      Nat.zero_max]

theorem rank_eq_zero {s : DriftSeverity} : s.rank = 0 ↔ s = .none := by
  cases s <;> simp [DriftSeverity.rank]

theorem rollUp_none {positions : List PositionDrift} {orders : List OrderDrift}
    (h : ∀ d ∈ positions, d.severity ≠ .none) :
    rollUp positions orders = .none ↔ positions = [] ∧ orders = [] := by
  rw [← rank_eq_zero, rollUp_rank]
  cases positions with
  | nil =>
    cases orders with
    | nil => simp
    | cons o orders =>
      simp only [List.map_nil, List.nil_append, List.map_cons, List.foldr_cons, reduceCtorEq,
        and_false, iff_false, DriftSeverity.rank]
      omega
  | cons d positions =>
    have hd := mt rank_eq_zero.1 (h d List.mem_cons_self)
    simp only [List.map_cons, List.cons_append, List.foldr_cons, reduceCtorEq, false_and, iff_false]
    omega

theorem diffPositions_severity {bp ep : List PositionRow} {tol : ReconcileTolerance}
    {d : PositionDrift} (h : d ∈ diffPositions bp ep tol) : d.severity ≠ .none := by
  rw [diffPositions_eq, List.mem_filterMap] at h
  obtain ⟨sym, -, hd⟩ := h
  have hne : lastQty bp sym ≠ lastQty ep sym := by
    intro heq
    rw [positionDrift_none.2 heq] at hd
    cases hd
  rw [positionDrift_of_ne hne] at hd
  obtain rfl := Option.some.inj hd
  exact mt classifyPosition_none.1 hne

theorem diffPositions_nil {bp ep : List PositionRow} {tol : ReconcileTolerance} :
    diffPositions bp ep tol = [] ↔ ∀ sym, lastQty bp sym = lastQty ep sym := by
  have hnil : diffPositions [] [] tol = [] := rfl
  rw [← hnil, diffPositions_eq_iff]
  refine forall_congr' fun sym => ?_
  rw [positionDrift_none.2 (rfl : lastQty [] sym = lastQty [] sym), positionDrift_none]

theorem diffOrders_nil {bo eo : List OrderRow} :
    diffOrders bo eo = [] ↔
      ∀ id, (lastOrder bo id).map (·.remainingQty) = (lastOrder eo id).map (·.remainingQty) := by
  have hnil : diffOrders [] [] = [] := rfl
  have hnone : ∀ id, orderDrift id (lastOrder [] id) (lastOrder [] id) = none := fun _ => rfl
  rw [← hnil, diffOrders_eq_iff]
  refine forall_congr' fun id => ?_
  rw [hnone, ← sideOf_none, ← orderDrift_side, Option.map_eq_none_iff]

theorem reconcile_isClean {b : BrokerSnapshot} {e : EngineSnapshot} {tol : ReconcileTolerance} :
    (reconcile b e tol).isClean ↔
      (∀ sym, lastQty b.positions sym = lastQty e.positions sym)
      ∧ ∀ id, (lastOrder b.openOrders id).map (·.remainingQty) =
          (lastOrder e.openOrders id).map (·.remainingQty) := by
  rw [ReconcileReport.isClean, beq_iff_eq, ← @diffPositions_nil _ _ tol, ← diffOrders_nil]
  exact rollUp_none fun d => diffPositions_severity

/-! ## The report is the difference of the books -/

theorem reconcile_exact_of_distinct {b : BrokerSnapshot} {e : EngineSnapshot}
    {tol : ReconcileTolerance} (hb : b.Distinct) (he : e.Distinct) :
    Exact b e tol (reconcile b e tol) where
  differs sym h := by
    rw [← lastQty_eq_net hb.symbols, ← lastQty_eq_net he.symbols] at h ⊢
    have hfilter := diffPositions_filter b.positions e.positions tol sym
    rw [positionDrift_of_ne h] at hfilter
    exact ⟨_, hfilter, rfl, rfl, rfl, classifyPosition_of_ne h⟩
  agrees sym h := by
    rw [← lastQty_eq_net hb.symbols, ← lastQty_eq_net he.symbols] at h
    have hfilter := diffPositions_filter b.positions e.positions tol sym
    rwa [positionDrift_none.2 h] at hfilter
  orders id := by
    rw [remaining, remaining, ← lastOrder_eq_find hb.clientOrderIds,
      ← lastOrder_eq_find he.clientOrderIds]
    exact diffOrders_sides _ _ id
  overall := rollUp_rank _ _
  clean := by
    rw [reconcile_isClean]
    simp only [lastQty_eq_net hb.symbols, lastQty_eq_net he.symbols,
      lastOrder_eq_find hb.clientOrderIds, lastOrder_eq_find he.clientOrderIds, remaining]

theorem diffOrders_nil_swap {bo eo : List OrderRow} :
    diffOrders eo bo = [] ↔ diffOrders bo eo = [] := by
  rw [diffOrders_nil, diffOrders_nil]
  exact forall_congr' fun _ => eq_comm

theorem reconcile_mirrored (b e : Snapshot) (tol : ReconcileTolerance) :
    Mirrored (reconcile b e tol) (reconcile e b tol) where
  positions := diffPositions_swap _ _ _
  orders id := by
    have hside := congrArg (List.map OrderDriftSide.swap) (diffOrders_sides b.openOrders e.openOrders id)
    rw [List.map_map, ← Option.toList_map, ← sideOf_swap, ← diffOrders_sides] at hside
    exact hside.symm
  overall := by
    simp only [reconcile, rollUp, diffPositions_swap b.positions, List.foldl_map, ne_eq,
      @diffOrders_nil_swap b.openOrders]

def brokerBook : Snapshot := ⟨"binance", [⟨"BTCUSDT", 3⟩, ⟨"ETHUSDT", 0⟩], [⟨"a", "BTCUSDT", 1⟩]⟩
def engineBook : Snapshot := ⟨"binance", [⟨"BTCUSDT", -1⟩], [⟨"b", "BTCUSDT", 1⟩]⟩

/-- The same rows in another order. -/
structure Reorders (s' s : Snapshot) : Prop where
  venue : s'.venue = s.venue
  positions : s'.positions.Perm s.positions
  openOrders : s'.openOrders.Perm s.openOrders

/-- One row per symbol, with its total. -/
def Snapshot.netted (s : Snapshot) : Snapshot :=
  { s with
    positions := (ascending (s.positions.map (·.symbol))).map fun sym => ⟨sym, net s.positions sym⟩ }

/-- No order of the rows changes the report, and the report is that of the totals. -/
def RowOrderFree (b e : Snapshot) (tol : ReconcileTolerance) : Prop :=
  (∀ b' e', Reorders b' b → Reorders e' e → reconcile b' e' tol = reconcile b e tol)
  ∧ reconcile b e tol = reconcile b.netted e.netted tol

/-- The quantities of the rows of a symbol, zero without one. -/
def rowQtys (rows : List PositionRow) (sym : String) : List ℚ :=
  if rows.filter (·.symbol = sym) = [] then [0] else (rows.filter (·.symbol = sym)).map (·.netQty)

/-- Of every symbol each row already is the total of its side; or the totals of the two sides agree
and so do all of their rows. -/
def NetRows (b e : List PositionRow) : Prop :=
  ∀ sym, ∀ x ∈ rowQtys b sym, ∀ y ∈ rowQtys e sym,
    (x = net b sym ∧ y = net e sym) ∨ (x = y ∧ net b sym = net e sym)

def OneSymbol (rows : List OrderRow) : Prop :=
  ∀ r ∈ rows, ∀ r' ∈ rows, r.symbol = r'.symbol

/-- Of every client id both sides have rows, all with one remaining quantity; or the quantities
differ whichever two rows are compared, and the rows of the side that is reported (the broker's if
it has any) name one symbol. -/
def StableOrders (b e : List OrderRow) : Prop :=
  ∀ id, let brows := b.filter (·.clientOrderId = id); let erows := e.filter (·.clientOrderId = id)
    (brows ≠ [] ∧ erows ≠ [] ∧ ∀ x ∈ brows, ∀ y ∈ erows, x.remainingQty = y.remainingQty)
    ∨ ((∀ x ∈ brows, ∀ y ∈ erows, x.remainingQty ≠ y.remainingQty)
      ∧ OneSymbol (if brows = [] then erows else brows))

/-- The rows of a key that can come last. -/
def lasts {α : Type*} (key : α → String) (rows : List α) (k : String) : List (Option α) :=
  if rows.filter (key · = k) = [] then [none] else (rows.filter (key · = k)).map some

section lasts
variable {α : Type*} {key : α → String}

theorem getLast?_mem_lasts (rows : List α) (k : String) :
    (rows.filter (key · = k)).getLast? ∈ lasts key rows k := by
  unfold lasts
  cases h : (rows.filter (key · = k)).getLast? with
  | none => simp [List.getLast?_eq_none_iff.1 h]
  | some r =>
    have hr := List.mem_of_getLast? h
    rw [if_neg (List.ne_nil_of_mem hr)]
    exact List.mem_map_of_mem hr

theorem lasts_perm {rows rows' : List α} (h : rows'.Perm rows) {k : String} {o : Option α}
    (ho : o ∈ lasts key rows' k) : o ∈ lasts key rows k := by
  have hfilter := h.filter (key · = k)
  unfold lasts at ho ⊢
  by_cases hnil : rows.filter (key · = k) = []
  · rw [if_pos hnil]
    rwa [if_pos (List.perm_nil.1 (hnil ▸ hfilter))] at ho
  · have hne : rows'.filter (key · = k) ≠ [] := fun hnil' => hnil (List.nil_perm.1 (hnil' ▸ hfilter :))
    rw [if_neg hnil]
    rw [if_neg hne] at ho
    exact (hfilter.map some).mem_iff.1 ho

/-- Any row of a key can be moved to the end. -/
theorem exists_perm_of_mem_lasts {rows : List α} {k : String} {o : Option α}
    (ho : o ∈ lasts key rows k) :
    ∃ rows' : List α, rows'.Perm rows ∧ (rows'.filter (key · = k)).getLast? = o := by
  classical
  unfold lasts at ho
  split at ho
  · rename_i hnil
    obtain rfl := List.mem_singleton.1 ho
    exact ⟨rows, .refl _, by rw [hnil]; rfl⟩
  · obtain ⟨r, hr, rfl⟩ := List.mem_map.1 ho
    obtain ⟨hrow, hk⟩ := List.mem_filter.1 hr
    refine ⟨rows.erase r ++ [r], ?_, ?_⟩
    · exact (List.perm_append_singleton _ _).trans (List.perm_cons_erase hrow).symm
    · have hlast : [r].filter (key · = k) = [r] := List.filter_eq_self.2 (by simpa using hk)
      rw [List.filter_append, hlast, List.getLast?_concat]

theorem forall_perm_iff {rows srows : List α} {k : String} {Q : Option α → Option α → Prop} :
    (∀ rows' srows' : List α, rows'.Perm rows → srows'.Perm srows →
        Q (rows'.filter (key · = k)).getLast? (srows'.filter (key · = k)).getLast?) ↔
      ∀ x ∈ lasts key rows k, ∀ y ∈ lasts key srows k, Q x y := by
  constructor
  · intro h x hx y hy
    obtain ⟨rows', hrows, rfl⟩ := exists_perm_of_mem_lasts hx
    obtain ⟨srows', hsrows, rfl⟩ := exists_perm_of_mem_lasts hy
    exact h rows' srows' hrows hsrows
  · intro h rows' srows' hrows hsrows
    exact h _ (lasts_perm hrows (getLast?_mem_lasts rows' k)) _
      (lasts_perm hsrows (getLast?_mem_lasts srows' k))

end lasts

/-! ### Positions -/

theorem rowQtys_eq (rows : List PositionRow) (sym : String) :
    rowQtys rows sym = (lasts (·.symbol) rows sym).map fun o => (o.map (·.netQty)).getD 0 := by
  unfold rowQtys lasts
  split
  · rfl
  · rw [List.map_map]
    rfl

theorem net_of_not_mem {rows : List PositionRow} {sym : String}
    (h : sym ∉ rows.map (·.symbol)) : net rows sym = 0 := by
  have hnil : rows.filter (·.symbol = sym) = [] := by
    rw [List.filter_eq_nil_iff]
    intro r hr hsym
    exact h (of_decide_eq_true hsym ▸ List.mem_map_of_mem hr)
  rw [net, hnil]
  rfl

theorem netted_filter (s : Snapshot) (sym : String) :
    s.netted.positions.filter (·.symbol = sym) =
      if sym ∈ s.positions.map (·.symbol) then [⟨sym, net s.positions sym⟩] else [] := by
  have hmap : s.netted.positions = (ascending (s.positions.map (·.symbol))).filterMap
      fun sym => some (⟨sym, net s.positions sym⟩ : PositionRow) :=
    (congrFun List.filterMap_eq_map _).symm
  have htag : ∀ k (r : PositionRow), some ⟨k, net s.positions k⟩ = some r → r.symbol = k := by
    rintro k r ⟨⟩
    rfl
  rw [hmap, filter_filterMap_tag htag (nodup_ascending _)]
  simp only [mem_ascending]
  rfl

theorem lastQty_netted (s : Snapshot) (sym : String) :
    lastQty s.netted.positions sym = net s.positions sym := by
  rw [lastQty, netted_filter]
  split
  · rfl
  · rename_i h
    rw [net_of_not_mem h]
    rfl

theorem netRows_iff {b e : List PositionRow} {tol : ReconcileTolerance} :
    (∀ b' e' : List PositionRow, b'.Perm b → e'.Perm e → ∀ sym,
        positionDrift tol sym (lastQty b' sym) (lastQty e' sym) =
          positionDrift tol sym (net b sym) (net e sym)) ↔ NetRows b e := by
  have hswap : (∀ b' e' : List PositionRow, b'.Perm b → e'.Perm e → ∀ sym,
      positionDrift tol sym (lastQty b' sym) (lastQty e' sym) =
        positionDrift tol sym (net b sym) (net e sym)) ↔
      ∀ sym, ∀ b' e' : List PositionRow, b'.Perm b → e'.Perm e →
        positionDrift tol sym (lastQty b' sym) (lastQty e' sym) =
          positionDrift tol sym (net b sym) (net e sym) :=
    ⟨fun h sym b' e' hb he => h b' e' hb he sym, fun h b' e' hb he sym => h sym b' e' hb he⟩
  rw [hswap]
  refine forall_congr' fun sym => ?_
  simp only [rowQtys_eq, List.forall_mem_map, ← @positionDrift_eq_iff tol sym]
  exact forall_perm_iff (Q := fun (x y : Option PositionRow) =>
    positionDrift tol sym ((x.map (·.netQty)).getD 0) ((y.map (·.netQty)).getD 0) =
      positionDrift tol sym (net b sym) (net e sym))

/-! ### Orders -/

theorem oneSymbol_iff {rows : List OrderRow} {r : OrderRow} (hr : r ∈ rows) :
    OneSymbol rows ↔ ∀ x ∈ rows, x.symbol = r.symbol := by
  constructor
  · intro h x hx
    exact h x hx r hr
  · intro h x hx y hy
    rw [h x hx, h y hy]

theorem orderDrift_some (id : String) (x y : OrderRow) :
    orderDrift id (some x) (some y) =
      if x.remainingQty = y.remainingQty then none else some ⟨id, x.symbol, .quantityMismatch⟩ := by
  by_cases h : x.remainingQty = y.remainingQty
  · simp [orderDrift, brokerDrift, engineDrift, h]
  · simp [orderDrift, brokerDrift, engineDrift, h, Ne.symm h]

/-- The mismatch of two rows is that of every two when all agree, or when none do and one symbol is
reported. -/
theorem mismatch_stable_iff {brows erows : List OrderRow} {id : String} {r r' : OrderRow}
    (hr : r ∈ brows) (hr' : r' ∈ erows) :
    (∀ x ∈ brows, ∀ y ∈ erows,
        (if x.remainingQty = y.remainingQty then none
          else some (⟨id, x.symbol, .quantityMismatch⟩ : OrderDrift)) =
        if r.remainingQty = r'.remainingQty then none
        else some ⟨id, r.symbol, .quantityMismatch⟩) ↔
      (∀ x ∈ brows, ∀ y ∈ erows, x.remainingQty = y.remainingQty)
      ∨ ((∀ x ∈ brows, ∀ y ∈ erows, ¬ x.remainingQty = y.remainingQty)
        ∧ ∀ x ∈ brows, x.symbol = r.symbol) := by
  by_cases hrr : r.remainingQty = r'.remainingQty
  · have hnot : ¬ ∀ x ∈ brows, ∀ y ∈ erows, ¬ x.remainingQty = y.remainingQty :=
      fun h => h r hr r' hr' hrr
    simp [hrr, hnot]
  · have hnot : ¬ ∀ x ∈ brows, ∀ y ∈ erows, x.remainingQty = y.remainingQty :=
      fun h => hrr (h r hr r' hr')
    simp only [hrr, hnot, if_false, false_or]
    constructor
    · intro h
      have hxy : ∀ x ∈ brows, ∀ y ∈ erows,
          ¬ x.remainingQty = y.remainingQty ∧ x.symbol = r.symbol := by
        intro x hx y hy
        have := h x hx y hy
        split at this
        · cases this
        · rename_i hne
          exact ⟨hne, congrArg OrderDrift.symbol (Option.some.inj this)⟩
      exact ⟨fun x hx y hy => (hxy x hx y hy).1, fun x hx => (hxy x hx r' hr').2⟩
    · rintro ⟨hne, hsym⟩ x hx y hy
      rw [if_neg (hne x hx y hy), hsym x hx]

/-- The two rows of an id do not matter exactly when `StableOrders` says so. -/
theorem orderDrift_stable_iff {brows erows : List OrderRow} {id : String} {x0 y0 : Option OrderRow}
    (hx0 : x0 ∈ if brows = [] then [none] else brows.map some)
    (hy0 : y0 ∈ if erows = [] then [none] else erows.map some) :
    (∀ x ∈ if brows = [] then [none] else brows.map some,
        ∀ y ∈ if erows = [] then [none] else erows.map some,
          orderDrift id x y = orderDrift id x0 y0) ↔
      (brows ≠ [] ∧ erows ≠ [] ∧ ∀ x ∈ brows, ∀ y ∈ erows, x.remainingQty = y.remainingQty)
      ∨ ((∀ x ∈ brows, ∀ y ∈ erows, x.remainingQty ≠ y.remainingQty)
        ∧ OneSymbol (if brows = [] then erows else brows)) := by
  by_cases hb : brows = [] <;> by_cases he : erows = []
  · -- neither side has the id
    subst hb he
    simp_all [OneSymbol]
  · -- the engine's symbol is reported
    subst hb
    rw [if_neg he] at hy0
    obtain ⟨r, hr, rfl⟩ := List.mem_map.1 hy0
    obtain rfl := List.mem_singleton.1 hx0
    simp [he, oneSymbol_iff hr, orderDrift, brokerDrift, engineDrift]
  · -- the broker's symbol is reported
    subst he
    rw [if_neg hb] at hx0
    obtain ⟨r, hr, rfl⟩ := List.mem_map.1 hx0
    obtain rfl := List.mem_singleton.1 hy0
    simp [hb, oneSymbol_iff hr, orderDrift, brokerDrift, engineDrift]
  · -- the broker's symbol is reported if the quantities differ
    rw [if_neg hb] at hx0
    rw [if_neg he] at hy0
    obtain ⟨r, hr, rfl⟩ := List.mem_map.1 hx0
    obtain ⟨r', hr', rfl⟩ := List.mem_map.1 hy0
    simp only [hb, he, if_false, ne_eq, not_false_eq_true, true_and, List.forall_mem_map,
      oneSymbol_iff hr, orderDrift_some]
    exact mismatch_stable_iff hr hr'

theorem stableOrders_iff {b e : List OrderRow} :
    (∀ b' e' : List OrderRow, b'.Perm b → e'.Perm e → ∀ id,
        orderDrift id (lastOrder b' id) (lastOrder e' id) =
          orderDrift id (lastOrder b id) (lastOrder e id)) ↔ StableOrders b e := by
  have hswap : (∀ b' e' : List OrderRow, b'.Perm b → e'.Perm e → ∀ id,
      orderDrift id (lastOrder b' id) (lastOrder e' id) =
        orderDrift id (lastOrder b id) (lastOrder e id)) ↔
      ∀ id, ∀ b' e' : List OrderRow, b'.Perm b → e'.Perm e →
        orderDrift id (lastOrder b' id) (lastOrder e' id) =
          orderDrift id (lastOrder b id) (lastOrder e id) :=
    ⟨fun h id b' e' hb he => h b' e' hb he id, fun h b' e' hb he id => h id b' e' hb he⟩
  rw [hswap]
  refine forall_congr' fun id => ?_
  rw [← @orderDrift_stable_iff _ _ id _ _ (getLast?_mem_lasts b id) (getLast?_mem_lasts e id)]
  exact forall_perm_iff (Q := fun x y => orderDrift id x y =
    orderDrift id (lastOrder b id) (lastOrder e id))

/-! ### The report -/

theorem rowOrderFree_iff_netted {b e : Snapshot} {tol : ReconcileTolerance} :
    RowOrderFree b e tol ↔ ∀ b' e', Reorders b' b → Reorders e' e →
      reconcile b' e' tol = reconcile b.netted e.netted tol := by
  constructor
  · rintro ⟨horder, hnet⟩ b' e' hb he
    rw [horder b' e' hb he, hnet]
  · intro h
    have hself := h b e ⟨rfl, .refl _, .refl _⟩ ⟨rfl, .refl _, .refl _⟩
    exact ⟨fun b' e' hb he => (h b' e' hb he).trans hself.symm, hself⟩

/-- **Hedge legs**: the report is a function of the totals that no order of the rows changes
exactly when every row of a symbol already is the total (or the sides agree row by row), and every
client id is stable. -/
theorem rowOrderFree_iff {b e : Snapshot} {tol : ReconcileTolerance} :
    RowOrderFree b e tol ↔
      NetRows b.positions e.positions ∧ StableOrders b.openOrders e.openOrders := by
  rw [rowOrderFree_iff_netted, ← @netRows_iff _ _ tol, ← stableOrders_iff]
  simp only [reconcile_eq_iff, lastQty_netted]
  constructor
  · intro h
    refine ⟨fun bp ep hb he sym => ?_, fun bo eo hb he id => ?_⟩
    · exact (h ⟨b.venue, bp, b.openOrders⟩ ⟨e.venue, ep, e.openOrders⟩ ⟨rfl, hb, .refl _⟩
        ⟨rfl, he, .refl _⟩).2.1 sym
    · exact (h ⟨b.venue, b.positions, bo⟩ ⟨e.venue, e.positions, eo⟩ ⟨rfl, .refl _, hb⟩
        ⟨rfl, .refl _, he⟩).2.2 id
  · rintro ⟨hpos, hord⟩ b' e' hb he
    exact ⟨hb.venue, hpos _ _ hb.positions he.positions, hord _ _ hb.openOrders he.openOrders⟩

/-- A venue in hedge mode: a long and a short leg of one symbol, two in total. -/
def hedgeLegs : Snapshot := ⟨"binance", [⟨"BTCUSDT", 3⟩, ⟨"BTCUSDT", -1⟩], []⟩
def hedgeNet : Snapshot := ⟨"binance", [⟨"BTCUSDT", 2⟩], []⟩

/-- The legs net to what the engine has; the code compares the short leg alone and reports a sign
flip. -/
theorem hedge_legs_reported : (reconcile hedgeLegs hedgeNet ⟨0⟩).overall = .critical
    ∧ ¬ RowOrderFree hedgeLegs hedgeNet ⟨0⟩ := by
  refine ⟨by decide +kernel, fun h => ?_⟩
  exact absurd h.2 (by decide +kernel)

end Qtss.Reconcile
