import Mathlib.Data.List.Nodup
import Mathlib.Tactic.NormNum
import Qtss.Backtest.Iq.Stops
import Qtss.Lib.Places
/-
# Taking the whole position at the targets (`manager.rs:125`, `:176`)

| here | there |
| --- | --- |
| `Places.decimal` | what a `Decimal` operation keeps of its exact result: 28 places at most and 96 bits, ties to even |
| `tpFractions`    | manager.rs:125, with the division as it is made |
| `slicePnl`       | the pnl that `realise_slice` (:68) returns |
| `realiseSlice`   | manager.rs:68, with what it leaves as the subtraction makes it |
| `tpLoop`         | the tier loop (:197-233), with the slice as the product makes it |
| `onTrade`        | the loop body of `on_bar` (:158) with this tier loop |

The other sums and products are exact: nothing here reads them.

A trade is closed as `TakeProfitFull` when nothing at all is left of it. What the rounded slices leave of the position
depends on `n` and the quantity alone (`leftOver`), but for the 33/33/34 of three targets, where also the order matters in
which the levels are reached (`Reached`, `takesFull_iff`). A tier whose pnl is rounded to zero (`gain`) does not count as
filled and can be taken again, which never leaves more (`leftOver_le_of_sublist`).
-/

namespace Qtss.Backtest.Iq.Rounded
open Runs IqTrade IqLifecycleManager Places

/-- manager.rs:125. -/
def tpFractions (n : ℕ) : List ℚ :=
  if n = 0 then []
  else if n = 3 then [33 / 100, 33 / 100, 34 / 100]
  else List.replicate n (decimal (1 / n))

/-- manager.rs:77. -/
def slicePnl (entry price qty : ℚ) (long : Bool) : ℚ :=
  decimal (decimal (if long then price - entry else entry - price) * qty)

/-- manager.rs:68. -/
def realiseSlice (m : IqLifecycleManager) (t : IqTrade) (cause : Cause) (sliceQty exitPrice : ℚ) (exitTime : DateTime)
    (long : Bool) : IqTrade :=
  let remaining := decimal (t.remainingQty - sliceQty)
  { m.realiseSlice t cause sliceQty exitPrice exitTime long with
    remainingQty := if remaining < 0 then 0 else remaining }

/-- manager.rs:197-233, from tier `i` on. -/
def tpLoop (m : IqLifecycleManager) (bar : Bar) (long : Bool) (initial : ℚ) (fractions : List ℚ) :
    ℕ → List ℚ → IqTrade × List Bool → IqTrade × List Bool
  | _, [], s => s
  | i, tp :: tps, (t, tierFilled) =>
    if i ≥ tierFilled.length then (t, tierFilled)
    else if tierFilled.getD i false then tpLoop m bar long initial fractions (i + 1) tps (t, tierFilled)
    else if ¬ crossed bar long tp then
      tpLoop m bar long initial fractions (i + 1) tps (t, tierFilled)
    else
      let frac := fractions.getD i 1
      let slice := min (decimal (initial * frac)) t.remainingQty
      if slice ≤ 0 then (t, tierFilled)
      else
        let pnl := slicePnl t.entryPrice tp slice long
        let t := creditTier (realiseSlice m t (.tier i) slice tp bar.time long) i pnl
        tpLoop m bar long initial fractions (i + 1) tps ({ t with state := .scalingOut }, tierFilled.set i true)

/-- manager.rs:158. -/
def onTrade (m : IqLifecycleManager) (bar : Bar) (t : IqTrade) : Disposition :=
  if ¬ t.Active then
    if t.state = .closed ∨ t.state = .aborted then .closed t else .keep t
  else
    let long := t.long
    let t := t.observePath bar.close long
    let fractions := tpFractions t.takeProfits.length
    let slHit := decide (stopTouched bar t)
    let (t, filled) := tpLoop m bar long t.initialQty fractions 0 t.takeProfits (t, tierFilled t)
    m.settle bar long slHit filled t

/-- The trade after a bar. -/
def step (m : IqLifecycleManager) (t : IqTrade) (bar : Bar) : IqTrade := (onTrade m bar t).trade

/-- Some bar finds the trade open and crosses the level. -/
def CrossedWhileOpen (m : IqLifecycleManager) (tp : ℚ) : IqTrade → List Bar → Prop
  | _, [] => False
  | t, bar :: bars => (t.Active ∧ crossed bar t.long tp) ∨ CrossedWhileOpen m tp (step m t bar) bars

/-- Closed as `TakeProfitFull` with nothing left. -/
structure TakenFull (t : IqTrade) : Prop where
  state : t.state = .closed
  outcome : t.outcome = some .takeProfitFull
  remainingQty : t.remainingQty = 0

/-- Once every level has been crossed, the stop untouched, the trade is taken in full. -/
def TakesFull (m : IqLifecycleManager) (t : IqTrade) : Prop :=
  ∀ bars, AllSteps (step m) (fun t bar => t.Active → ¬ stopTouched bar t) t bars →
    (∀ tp ∈ t.takeProfits, CrossedWhileOpen m tp t bars) → TakenFull (run (step m) t bars)

/-- Every level is on the winning side of the entry. -/
def Winning (t : IqTrade) : Prop :=
  ∀ tp ∈ t.takeProfits, if t.long then t.entryPrice < tp else tp < t.entryPrice

/-! ## What the slices leave -/

/-- What tier `i` of `n` takes, if there is enough. -/
def tierSlice (n : ℕ) (qty : ℚ) (i : ℕ) : ℚ := decimal (qty * (tpFractions n).getD i 1)

/-- Slices taken off a quantity one after another, up to one that takes nothing. -/
def leftOver : ℚ → List ℚ → ℚ
  | left, [] => left
  | left, slice :: slices =>
    if min slice left ≤ 0 then left else leftOver (decimal (left - min slice left)) slices

theorem leftOver_stuck {slice left : ℚ} (h : min slice left ≤ 0) (slices : List ℚ) :
    leftOver left (slice :: slices) = left := if_pos h

theorem leftOver_take {slice left : ℚ} (h : 0 < min slice left) (slices : List ℚ) :
    leftOver left (slice :: slices) = leftOver (decimal (left - min slice left)) slices := if_neg (not_le.2 h)

theorem leftOver_zero (slices : List ℚ) : leftOver 0 slices = 0 := by
  cases slices with
  | nil => rfl
  | cons slice slices => exact leftOver_stuck (min_le_right _ _) slices

/-- Nothing stays nothing. -/
theorem leftOver_append_of_zero {left : ℚ} {slices : List ℚ} (h : leftOver left slices = 0) (rest : List ℚ) :
    leftOver left (slices ++ rest) = 0 := by
  induction slices generalizing left with
  | nil =>
    rw [leftOver] at h
    rw [h, leftOver_zero]
  | cons slice slices ih =>
    rw [List.cons_append]
    by_cases hstuck : min slice left ≤ 0
    · rw [leftOver_stuck hstuck] at h ⊢
      exact h
    · rw [leftOver_take (not_le.1 hstuck)] at h ⊢
      exact ih h

theorem leftOver_nonneg {left : ℚ} (h : 0 ≤ left) (slices : List ℚ) : 0 ≤ leftOver left slices := by
  induction slices generalizing left with
  | nil => exact h
  | cons slice slices ih =>
    by_cases hstuck : min slice left ≤ 0
    · rwa [leftOver_stuck hstuck]
    · rw [leftOver_take (not_le.1 hstuck)]
      exact ih (decimal_nonneg (sub_nonneg.2 (min_le_right _ _)))

/-- More slices of less leave no more. -/
theorem leftOver_le_of_sublist {slices more : List ℚ} (h : slices.Sublist more) (hpos : ∀ slice ∈ more, 0 < slice)
    {less left : ℚ} (hnonneg : 0 ≤ less) (hle : less ≤ left) (hdecimal : decimal less = less) :
    leftOver less more ≤ leftOver left slices := by
  induction h generalizing less left with
  | slnil => exact hle
  | @cons slices more slice _ ih =>
    obtain ⟨hslice, hpos⟩ := List.forall_mem_cons.1 hpos
    rcases hnonneg.eq_or_lt with rfl | hless
    · rw [leftOver_zero]
      exact leftOver_nonneg hle _
    · rw [leftOver_take (lt_min hslice hless)]
      have hrest : 0 ≤ less - min slice less := sub_nonneg.2 (min_le_right _ _)
      refine ih hpos (decimal_nonneg hrest) ?_ (decimal_decimal _)
      calc decimal (less - min slice less) ≤ decimal less :=
            decimal_mono hrest (sub_le_self _ (lt_min hslice hless).le)
        _ = less := hdecimal
        _ ≤ left := hle
  | @cons_cons slices more slice _ ih =>
    obtain ⟨hslice, hpos⟩ := List.forall_mem_cons.1 hpos
    rcases hnonneg.eq_or_lt with rfl | hless
    · rw [leftOver_zero]
      exact leftOver_nonneg hle _
    · rw [leftOver_take (lt_min hslice hless), leftOver_take (lt_min hslice (hless.trans_le hle))]
      have hrest : 0 ≤ less - min slice less := sub_nonneg.2 (min_le_right _ _)
      refine ih hpos (decimal_nonneg hrest) (decimal_mono hrest ?_) (decimal_decimal _)
      rcases le_total slice less with hsmall | hlarge
      · rw [min_eq_left hsmall, min_eq_left (hsmall.trans hle)]
        exact sub_le_sub_right hle _
      · rw [min_eq_right hlarge, sub_self]
        exact sub_nonneg.2 (min_le_right _ _)

/-- The level `x` is reached before `y`. -/
def Nearer (long : Bool) (x y : ℚ) : Prop := if long then x < y else y < x

/-- The orders in which bars can reach the levels: each bar reaches the nearest that are left, in the order of the list. -/
inductive Reached (long : Bool) (levels : List ℚ) : List ℕ → Prop
  | start : Reached long levels []
  | bar {order : List ℕ} (now : ℕ → Bool) : Reached long levels order → (∀ i < levels.length, now i → i ∉ order) →
    (∀ i ∈ order ++ (List.range levels.length).filter now, ∀ j < levels.length,
      j ∉ order ++ (List.range levels.length).filter now → Nearer long (levels.getD i 0) (levels.getD j 0)) →
    Reached long levels (order ++ (List.range levels.length).filter now)

section orders
variable {long : Bool} {levels : List ℚ} {order : List ℕ}

/-- What was reached is nearer than what was not. -/
theorem Reached.apart (h : Reached long levels order) {i j : ℕ} (hi : i ∈ order) (hj : j < levels.length)
    (hout : j ∉ order) : Nearer long (levels.getD i 0) (levels.getD j 0) := by
  cases h with
  | start => simp at hi
  | bar now _ _ hapart => exact hapart i hi j hj hout

theorem Reached.lt (h : Reached long levels order) : ∀ i ∈ order, i < levels.length := by
  induction h with
  | start => simp
  | bar now _ _ _ ih =>
    intro i hi
    rcases List.mem_append.1 hi with hi | hi
    · exact ih i hi
    · exact List.mem_range.1 (List.mem_filter.1 hi).1

theorem Reached.nodup (h : Reached long levels order) : order.Nodup := by
  induction h with
  | start => exact List.nodup_nil
  | bar now _ hnew _ ih =>
    refine ih.append (List.nodup_range.filter _) fun i hi hnow => ?_
    obtain ⟨hlt, hnow⟩ := List.mem_filter.1 hnow
    exact hnew i (List.mem_range.1 hlt) hnow hi

theorem Reached.length_eq (h : Reached long levels order) (hall : ∀ i < levels.length, i ∈ order) :
    order.length = levels.length := by
  have hperm : order.Perm (List.range levels.length) :=
    (List.perm_ext_iff_of_nodup h.nodup List.nodup_range).2 fun i =>
      ⟨fun hi => List.mem_range.2 (h.lt i hi), fun hi => hall i (List.mem_range.1 hi)⟩
  rw [hperm.length_eq, List.length_range]

/-- One more bar reaches the rest. -/
theorem Reached.rest (h : Reached long levels order) :
    Reached long levels (order ++ (List.range levels.length).filter fun i => i ∉ order) := by
  refine .bar _ h (fun i _ hi => by simpa using hi) fun i _ j hj hout => absurd ?_ hout
  by_cases hmem : j ∈ order
  · simp [hmem]
  · simp [hmem, hj]

theorem Reached.index : Reached long levels (List.range levels.length) := by
  have hstart : Reached long levels [] := .start
  simpa using hstart.rest

end orders

/-! ## The books of a ladder -/

/-- The pnl of tier `i`, taken whole. -/
def gain (t : IqTrade) (i : ℕ) : ℚ :=
  slicePnl t.entryPrice (t.takeProfits.getD i 0) (tierSlice t.takeProfits.length t.initialQty i) t.long

/-- A trade that started as `t₀`, after its tiers in `order`. -/
structure OnLadder (t₀ : IqTrade) (order : List ℕ) (t : IqTrade) : Prop where
  initialQty : t.initialQty = t₀.initialQty
  takeProfits : t.takeProfits = t₀.takeProfits
  entryPrice : t.entryPrice = t₀.entryPrice
  polarity : t.polarity = t₀.polarity
  active : t.Active
  outcome : t.outcome = none
  pnl : ∀ i, 0 < t.tierPnl i → i ∈ order
  kept : t.remainingQty ≠ 0 → ∀ i ∈ order, 0 < gain t₀ i → 0 < t.tierPnl i
  nonneg : 0 ≤ t.remainingQty
  remaining : ∀ slices, leftOver t₀.initialQty (order.map (tierSlice t₀.takeProfits.length t₀.initialQty) ++ slices) =
    leftOver t.remainingQty slices

section ladder
variable {m : IqLifecycleManager} {bar : Bar} {t₀ t : IqTrade} {order : List ℕ}

theorem OnLadder.long (h : OnLadder t₀ order t) : t.long = t₀.long := by
  rw [IqTrade.long, IqTrade.long, h.polarity]

/-- What the slices of the tiers leave. -/
theorem OnLadder.left (h : OnLadder t₀ order t) :
    leftOver t₀.initialQty (order.map (tierSlice t₀.takeProfits.length t₀.initialQty)) = t.remainingQty := by
  have hremaining := h.remaining []
  rwa [List.append_nil] at hremaining

theorem tierPnl_creditTier {i : ℕ} (hi : i < t.takeProfits.length) (pnl : ℚ) : (creditTier t i pnl).tierPnl i = pnl := by
  have hlen : i < t.tierPnls.length := by rw [t.tiers]; omega
  simp [creditTier, tierPnl, hlen]

/-- The fill of tier `i`. -/
def fill (m : IqLifecycleManager) (bar : Bar) (t : IqTrade) (i : ℕ) (slice tp : ℚ) : IqTrade :=
  { creditTier (realiseSlice m t (.tier i) slice tp bar.time t.long) i (slicePnl t.entryPrice tp slice t.long) with
    state := .scalingOut }

theorem fill_tierPnl {i j : ℕ} (slice tp : ℚ) (hi : i < t.takeProfits.length) :
    (fill m bar t i slice tp).tierPnl j =
      if j = i then slicePnl t.entryPrice tp slice t.long else t.tierPnl j := by
  split
  · rename_i heq
    subst heq
    exact tierPnl_creditTier (t := realiseSlice m t (.tier j) slice tp bar.time t.long) hi _
  · rename_i hne
    exact creditTier_tierPnl (t := realiseSlice m t (.tier i) slice tp bar.time t.long) hne _

theorem fill_remainingQty (m : IqLifecycleManager) (bar : Bar) (i : ℕ) {slice : ℚ} (tp : ℚ) (h : slice ≤ t.remainingQty) :
    (fill m bar t i slice tp).remainingQty = decimal (t.remainingQty - slice) :=
  if_neg (not_lt.2 (decimal_nonneg (sub_nonneg.2 h)))

/-- A fill keeps the books. -/
theorem OnLadder.fill (h : OnLadder t₀ order t) (m : IqLifecycleManager) (bar : Bar) {i : ℕ}
    (hi : i < t₀.takeProfits.length)
    (hslice : 0 < min (tierSlice t₀.takeProfits.length t₀.initialQty i) t.remainingQty) :
    OnLadder t₀ (order ++ [i]) (fill m bar t i
      (min (tierSlice t₀.takeProfits.length t₀.initialQty i) t.remainingQty) (t₀.takeProfits.getD i 0)) := by
  have hremaining := fill_remainingQty m bar i (t₀.takeProfits.getD i 0)
    (min_le_right (tierSlice t₀.takeProfits.length t₀.initialQty i) t.remainingQty)
  refine ⟨h.initialQty, h.takeProfits, h.entryPrice, h.polarity, .inr rfl, h.outcome, fun j hpos => ?_,
    fun hleft j hj hgain => ?_, ?_, fun slices => ?_⟩
  · rw [fill_tierPnl _ _ (h.takeProfits ▸ hi)] at hpos
    by_cases hji : j = i
    · simp [hji]
    · rw [if_neg hji] at hpos
      exact List.mem_append_left _ (h.pnl j hpos)
  · rw [fill_tierPnl _ _ (h.takeProfits ▸ hi)]
    rw [hremaining] at hleft
    by_cases hji : j = i
    · -- the slice was not clipped, since something is left
      have hwhole : min (tierSlice t₀.takeProfits.length t₀.initialQty i) t.remainingQty =
          tierSlice t₀.takeProfits.length t₀.initialQty i := by
        refine min_eq_left (le_of_not_ge fun hclip => hleft ?_)
        rw [min_eq_right hclip, sub_self, decimal_zero]
      rw [if_pos hji, hwhole, h.entryPrice, h.long, ← hji]
      exact hgain
    · rw [if_neg hji]
      have hmem : j ∈ order := by simpa [hji] using hj
      exact h.kept (lt_min_iff.1 hslice).2.ne' j hmem hgain
  · rw [hremaining]
    exact decimal_nonneg (sub_nonneg.2 (min_le_right _ _))
  · rw [hremaining, List.map_append, List.append_assoc, h.remaining]
    exact leftOver_take hslice slices

/-- The tiers before `k` that a bar crosses and `start`, the trade before the bar, does not count as filled. -/
def newTiers (start : IqTrade) (bar : Bar) (k : ℕ) : List ℕ :=
  (List.range k).filter fun i => ¬ 0 < start.tierPnl i ∧ crossed bar start.long (start.takeProfits.getD i 0)

theorem newTiers_succ (start : IqTrade) (bar : Bar) (k : ℕ) : newTiers start bar (k + 1) = newTiers start bar k ++
    if ¬ 0 < start.tierPnl k ∧ crossed bar start.long (start.takeProfits.getD k 0) then [k] else [] := by
  unfold newTiers
  rw [List.range_succ, List.filter_append, List.filter_singleton]
  simp only [Bool.cond_eq_ite, decide_eq_true_eq]

/-- A tier takes nothing, and the loop ends there. -/
def Stuck (t₀ start : IqTrade) (bar : Bar) (k : ℕ) (t : IqTrade) : Prop :=
  k < t₀.takeProfits.length ∧ (¬ 0 < start.tierPnl k ∧ crossed bar start.long (start.takeProfits.getD k 0)) ∧
    min (tierSlice t₀.takeProfits.length t₀.initialQty k) t.remainingQty ≤ 0

/-- **The tier loop** takes the new tiers of a bar one after another, up to one that takes nothing. -/
theorem tpLoop_spec (m : IqLifecycleManager) (bar : Bar) {start : IqTrade} (hstart : OnLadder t₀ order start)
    (tps : List ℚ) (k : ℕ) (t : IqTrade) (filled : List Bool) (htps : tps = t₀.takeProfits.drop k)
    (hk : k ≤ t₀.takeProfits.length) (h : OnLadder t₀ (order ++ newTiers start bar k) t)
    (hlen : filled.length = t₀.takeProfits.length)
    (hsync : ∀ i, k ≤ i → i < t₀.takeProfits.length → filled.getD i false = decide (0 < start.tierPnl i)) :
    ∃ k' ≤ t₀.takeProfits.length, ∃ t',
      (tpLoop m bar t₀.long t₀.initialQty (tpFractions t₀.takeProfits.length) k tps (t, filled)).1 = t' ∧
      OnLadder t₀ (order ++ newTiers start bar k') t' ∧
      (k' = t₀.takeProfits.length ∨ Stuck t₀ start bar k' t') ∧
      t'.stopLoss = t.stopLoss ∧ t'.barsHeld = t.barsHeld := by
  induction tps generalizing k t filled with
  | nil =>
    have hlast : t₀.takeProfits.length ≤ k := List.drop_eq_nil_iff.1 htps.symm
    exact ⟨k, hk, t, rfl, h, .inl (le_antisymm hk hlast), rfl, rfl⟩
  | cons tp tps ih =>
    have hk' : k < t₀.takeProfits.length := by
      have hlength := congrArg List.length htps
      simp only [List.length_cons, List.length_drop] at hlength
      omega
    have htp : t₀.takeProfits.getD k 0 = tp := by
      rw [List.getD_eq_getElem?_getD, ← List.head?_drop, ← htps]
      rfl
    have hrest : tps = t₀.takeProfits.drop (k + 1) := by
      rw [← List.tail_drop, ← htps]
      rfl
    have hcross : crossed bar start.long (start.takeProfits.getD k 0) ↔ crossed bar t₀.long tp := by
      rw [hstart.long, hstart.takeProfits, htp]
    rw [tpLoop, if_neg (by omega), hsync k le_rfl hk']
    by_cases hnew : ¬ 0 < start.tierPnl k ∧ crossed bar t₀.long tp
    · obtain ⟨hout, hcrossed⟩ := hnew
      rw [if_neg (by simpa using hout), if_neg (not_not.2 hcrossed)]
      dsimp only
      by_cases hslice : min (tierSlice t₀.takeProfits.length t₀.initialQty k) t.remainingQty ≤ 0
      · rw [if_pos (show min (decimal (t₀.initialQty * (tpFractions t₀.takeProfits.length).getD k 1)) t.remainingQty ≤ 0
          from hslice)]
        exact ⟨k, hk, t, rfl, h, .inr ⟨hk', ⟨hout, hcross.2 hcrossed⟩, hslice⟩, rfl, rfl⟩
      · rw [if_neg (show ¬ min (decimal (t₀.initialQty * (tpFractions t₀.takeProfits.length).getD k 1)) t.remainingQty ≤ 0
          from hslice)]
        have hsucc : newTiers start bar (k + 1) = newTiers start bar k ++ [k] := by
          rw [newTiers_succ, if_pos ⟨hout, hcross.2 hcrossed⟩]
        have hfill := h.fill m bar hk' (not_le.1 hslice)
        rw [List.append_assoc, ← hsucc, htp] at hfill
        obtain ⟨k', hle, t', hrun, hladder, hend, hstop, hheld⟩ :=
          ih (k + 1) _ (filled.set k true) hrest hk' hfill (by rw [List.length_set, hlen]) fun i hki hi => by
            rw [List.getD_eq_getElem?_getD, List.getElem?_set_ne (by omega), ← List.getD_eq_getElem?_getD,
              hsync i (by omega) hi]
        refine ⟨k', hle, t', ?_, hladder, hend, hstop, hheld⟩
        rw [← hrun, ← h.long]
        rfl
    · have hsucc : newTiers start bar (k + 1) = newTiers start bar k := by
        rw [newTiers_succ, if_neg (by rwa [hcross]), List.append_nil]
      have hskip := ih (k + 1) t filled hrest hk' (hsucc ▸ h) hlen fun i hki hi => hsync i (by omega) hi
      by_cases hout : 0 < start.tierPnl k
      · rwa [if_pos (decide_eq_true hout)]
      · have hcrossed : ¬ crossed bar t₀.long tp := fun hcrossed => hnew ⟨hout, hcrossed⟩
        rw [if_neg (by simpa using hout), if_pos hcrossed]
        exact hskip

/-! ## One bar -/

theorem finalize_outcome (ha : t.Active) {exitBar : ℕ} {exitTime : DateTime} {price : ℚ} {outcome : TradeOutcome} :
    (finalize t exitBar exitTime price outcome).outcome = some outcome := by
  have hopen : ¬ (t.state = .closed ∨ t.state = .aborted) := by
    rcases ha with h | h <;> simp [h]
  rw [finalize, if_neg hopen]

theorem exitAtClose_outcome (ha : t.Active) {cause : Cause} {outcome : TradeOutcome} {long : Bool} :
    (m.exitAtClose bar long cause outcome t).outcome = some outcome := by
  unfold exitAtClose
  dsimp only
  split
  · exact finalize_outcome (t := m.realiseRest t cause bar.close bar.time long) ha
  · exact finalize_outcome ha

/-- A trail that moved past the entry and was not touched does nothing but tighten. -/
theorem trailingStop_untouched (hstop : ¬ stopTouched bar t) (filled : List Bool) :
    ∃ t', m.trailingStop bar t.long filled t = .keep t' ∧ (t' = t ∨ ∃ mult, t' = tighten bar t.long mult t) := by
  cases htrail : m.trailingStop bar t.long filled t with
  | keep t' => exact ⟨t', rfl, trailingStop_keep htrail⟩
  | closed t' =>
    have htouched : touchedTrail bar t.long t = false := by
      unfold stopTouched at hstop
      unfold touchedTrail
      cases hlong : t.long <;> simp_all
    unfold trailingStop at htrail
    simp only [htouched, Bool.false_eq_true, if_false] at htrail
    split at htrail
    · cases htrail
    · split at htrail <;> cases htrail

/-- What follows the tier loop where the stop is not touched: the trade is taken in full where nothing is left, and else
it is kept but for its stop, or closed for another reason. -/
theorem settle_untouched (h : OnLadder t₀ order t) (hstop : ¬ stopTouched bar t) (filled : List Bool) :
    (t.remainingQty = 0 ∧ TakenFull (m.settle bar t.long false filled t).trade) ∨
    t.remainingQty ≠ 0 ∧
      ((∃ s, (m.settle bar t.long false filled t).trade = { t with stopLoss := s }) ∨
        ¬ (m.settle bar t.long false filled t).trade.Active ∧
          (m.settle bar t.long false filled t).trade.outcome ≠ some .takeProfitFull) := by
  unfold settle
  rw [if_neg (by simp)]
  by_cases hzero : t.remainingQty = 0
  · rw [if_pos hzero]
    refine .inl ⟨hzero, (finalize_closed h.active).1, finalize_outcome h.active, ?_⟩
    exact (finalize_frame t).2.1.trans hzero
  · rw [if_neg hzero]
    refine .inr ⟨hzero, ?_⟩
    obtain ⟨t', htrail, ht'⟩ := trailingStop_untouched (m := m) hstop filled
    have htighter : ∃ s, t' = { t with stopLoss := s } := by
      rcases ht' with rfl | ⟨mult, rfl⟩
      · exact ⟨_, rfl⟩
      · exact ⟨_, tighten_eq _ _⟩
    obtain ⟨s, rfl⟩ := htighter
    have hactive : IqTrade.Active { t with stopLoss := s } := h.active
    rw [htrail]
    dsimp only
    split
    · refine .inr ⟨finalize_not_active, ?_⟩
      rw [Disposition.trade, exitAtClose_outcome hactive]
      exact fun heq => by cases heq
    · split
      · refine .inr ⟨finalize_not_active, ?_⟩
        rw [Disposition.trade, exitAtClose_outcome hactive]
        exact fun heq => by cases heq
      · exact .inl ⟨s, rfl⟩

theorem step_inactive (h : ¬ t.Active) : step m t bar = t := by
  rw [step, onTrade, if_pos h]
  split <;> rfl

theorem run_inactive (h : ¬ t.Active) (bars : List Bar) : run (step m) t bars = t := by
  induction bars with
  | nil => rfl
  | cons bar bars ih => rw [run_cons, step_inactive h, ih]

theorem not_crossedWhileOpen {tp : ℚ} (h : ¬ t.Active) (bars : List Bar) : ¬ CrossedWhileOpen m tp t bars := by
  induction bars with
  | nil => exact id
  | cons bar bars ih =>
    rintro (⟨hactive, -⟩ | hlater)
    · exact h hactive
    · rw [step_inactive h] at hlater
      exact ih hlater

/-- A bar moves the stop and nothing else. -/
theorem OnLadder.restop (h : OnLadder t₀ order t) (s : ℚ) : OnLadder t₀ order { t with stopLoss := s } :=
  ⟨h.initialQty, h.takeProfits, h.entryPrice, h.polarity, h.active, h.outcome, h.pnl, h.kept, h.nonneg, h.remaining⟩

theorem OnLadder.observe (h : OnLadder t₀ order t) (price : ℚ) (long : Bool) :
    OnLadder t₀ order (t.observePath price long) :=
  ⟨h.initialQty, h.takeProfits, h.entryPrice, h.polarity, h.active, h.outcome, h.pnl, h.kept, h.nonneg, h.remaining⟩

/-- **One bar** of an open trade that does not touch its stop. -/
theorem step_untouched (m : IqLifecycleManager) (h : OnLadder t₀ order t) (hstop : ¬ stopTouched bar t) :
    ∃ k' ≤ t₀.takeProfits.length, ∃ t', OnLadder t₀ (order ++ newTiers t bar k') t' ∧
      (k' = t₀.takeProfits.length ∨ Stuck t₀ t bar k' t') ∧
      t'.stopLoss = t.stopLoss ∧ t'.barsHeld ≤ t.barsHeld + 1 ∧ ¬ stopTouched bar t' ∧
      ∃ filled, step m t bar = (m.settle bar t'.long false filled t').trade := by
  let seen := t.observePath bar.close t.long
  have hseen : OnLadder t₀ order seen := h.observe _ _
  have hstart := midway_start bar seen
  have hnone : newTiers seen bar 0 = [] := rfl
  have hloop := tpLoop_spec m bar hseen t₀.takeProfits 0 seen (tierFilled seen) rfl
    (Nat.zero_le _) (by rwa [hnone, List.append_nil]) (hstart.length.trans (congrArg List.length h.takeProfits))
    (fun i hi hlt => hstart.filled i hi (h.takeProfits ▸ hlt))
  obtain ⟨k', hk', t', hrun, hladder, hend, hkeep, hheld⟩ := hloop
  refine ⟨k', hk', t', hladder, hend, hkeep, ?_, ?_, ?_⟩
  · rw [hheld]
    exact min_le_left _ _
  · unfold stopTouched at hstop ⊢
    rwa [hladder.long, ← h.long, hkeep]
  · generalize hr : tpLoop m bar t₀.long t₀.initialQty (tpFractions t₀.takeProfits.length) 0 t₀.takeProfits
      (seen, tierFilled seen) = r at hrun
    refine ⟨r.2, ?_⟩
    rw [step, onTrade, if_neg (not_not.2 h.active)]
    dsimp only
    rw [hladder.long, ← h.long, decide_eq_false (show ¬ stopTouched bar seen from hstop)]
    rw [← h.initialQty, ← h.takeProfits, ← h.long] at hr
    change (m.settle bar t.long false (tpLoop m bar t.long t.initialQty (tpFractions t.takeProfits.length) 0
      t.takeProfits (seen, tierFilled seen)).2 (tpLoop m bar t.long t.initialQty (tpFractions t.takeProfits.length) 0
      t.takeProfits (seen, tierFilled seen)).1).trade = _
    rw [hr, hrun]

/-- The levels that the bar is the first to cross come next. -/
theorem Reached.crossing (bar : Bar) (h : Reached t₀.long t₀.takeProfits order) :
    Reached t₀.long t₀.takeProfits (order ++ (List.range t₀.takeProfits.length).filter fun i =>
      i ∉ order ∧ crossed bar t₀.long (t₀.takeProfits.getD i 0)) := by
  refine .bar _ h (fun i _ hi => (of_decide_eq_true hi).1) fun i hi j hj hout => ?_
  rw [List.mem_append, not_or, List.mem_filter, not_and] at hout
  obtain ⟨hnot, hnew⟩ := hout
  have hbeyond : ¬ crossed bar t₀.long (t₀.takeProfits.getD j 0) := fun hcrossed =>
    hnew (List.mem_range.2 hj) (decide_eq_true ⟨hnot, hcrossed⟩)
  rcases List.mem_append.1 hi with hi | hi
  · exact h.apart hi hj hnot
  · have hcrossed := (of_decide_eq_true (List.mem_filter.1 hi).2).2
    unfold crossed at hcrossed hbeyond
    unfold Nearer
    split at hcrossed
    · next hlong =>
      rw [if_pos hlong] at hbeyond ⊢
      exact (not_le.1 hbeyond).trans_le' hcrossed
    · next hshort =>
      rw [if_neg hshort] at hbeyond ⊢
      exact (not_le.1 hbeyond).trans_le hcrossed

theorem newTiers_mono (start : IqTrade) (bar : Bar) {k k' : ℕ} (h : k ≤ k') :
    ∃ later, newTiers start bar k' = newTiers start bar k ++ later := by
  induction k', h using Nat.le_induction with
  | base => exact ⟨[], (List.append_nil _).symm⟩
  | succ k' _ ih =>
    obtain ⟨later, hlater⟩ := ih
    exact ⟨later ++ _, by rw [newTiers_succ, hlater, List.append_assoc]⟩

/-- Afterwards all that the bar crosses has been taken. -/
theorem OnLadder.mem_newTiers (h : OnLadder t₀ order t) {i : ℕ} (hi : i < t₀.takeProfits.length)
    (hcrossed : crossed bar t.long (t.takeProfits.getD i 0)) :
    i ∈ order ++ newTiers t bar t₀.takeProfits.length := by
  by_cases hfilled : 0 < t.tierPnl i
  · exact List.mem_append_left _ (h.pnl i hfilled)
  · exact List.mem_append_right _ (List.mem_filter.2 ⟨List.mem_range.2 hi, decide_eq_true ⟨hfilled, hcrossed⟩⟩)

end ladder

/-! ## A life -/

section life
variable {m : IqLifecycleManager} {bar : Bar} {t₀ t : IqTrade} {order : List ℕ}

/-- Nothing is left of the quantity, in whatever order the levels are reached. -/
def AddsUp (long : Bool) (levels : List ℚ) (qty : ℚ) : Prop :=
  ∀ order, Reached long levels order → (∀ i < levels.length, i ∈ order) →
    leftOver qty (order.map (tierSlice levels.length qty)) = 0

/-- `order` is `first` with some tiers taken again. -/
structure Repeats (t₀ : IqTrade) (first order : List ℕ) : Prop where
  reached : Reached t₀.long t₀.takeProfits first
  sublist : first.Sublist order
  mem : ∀ i ∈ order, i ∈ first

/-- A bar may repeat what was not counted. -/
theorem Repeats.crossing {first : List ℕ} (hrep : Repeats t₀ first order) (h : OnLadder t₀ order t) (bar : Bar) :
    ∃ first', Repeats t₀ first' (order ++ newTiers t bar t₀.takeProfits.length) := by
  refine ⟨_, hrep.reached.crossing bar, hrep.sublist.append ?_, fun i hi => ?_⟩
  · -- what was not reached before was not filled
    refine List.monotone_filter_right _ fun i hi => ?_
    obtain ⟨hout, hcrossed⟩ := of_decide_eq_true hi
    rw [← h.long, ← h.takeProfits] at hcrossed
    exact decide_eq_true ⟨fun hfilled => hout (hrep.mem i (h.pnl i hfilled)), hcrossed⟩
  · rcases List.mem_append.1 hi with hi | hi
    · exact List.mem_append_left _ (hrep.mem i hi)
    · obtain ⟨hlt, hnew⟩ := List.mem_filter.1 hi
      have hcrossed := (of_decide_eq_true hnew).2
      rw [h.long, h.takeProfits] at hcrossed
      by_cases hmem : i ∈ first
      · exact List.mem_append_left _ hmem
      · exact List.mem_append_right _ (List.mem_filter.2 ⟨hlt, decide_eq_true ⟨hmem, hcrossed⟩⟩)

/-- Tiers that add up leave nothing when some are taken again. -/
theorem Repeats.left {first : List ℕ} (hrep : Repeats t₀ first order) (h : OnLadder t₀ order t) (hadds : AddsUp t₀.long t₀.takeProfits t₀.initialQty)
    (hq : 0 < t₀.initialQty) (hdecimal : decimal t₀.initialQty = t₀.initialQty)
    (htakes : ∀ i < t₀.takeProfits.length, 0 < tierSlice t₀.takeProfits.length t₀.initialQty i)
    (hall : ∀ i < t₀.takeProfits.length, i ∈ order) : t.remainingQty = 0 := by
  have hzero := hadds first hrep.reached fun i hi => hrep.mem i (hall i hi)
  have hpos : ∀ slice ∈ order.map (tierSlice t₀.takeProfits.length t₀.initialQty), 0 < slice := by
    intro slice hslice
    obtain ⟨i, hi, rfl⟩ := List.mem_map.1 hslice
    exact htakes i (hrep.reached.lt i (hrep.mem i hi))
  have hle := leftOver_le_of_sublist (hrep.sublist.map _) hpos hq.le le_rfl hdecimal
  rw [hzero, h.left] at hle
  exact le_antisymm hle h.nonneg

theorem OnLadder.run_takenFull (h : OnLadder t₀ order t) {first : List ℕ} (hrep : Repeats t₀ first order)
    (hq : 0 < t₀.initialQty) (hdecimal : decimal t₀.initialQty = t₀.initialQty)
    (htakes : ∀ i < t₀.takeProfits.length, 0 < tierSlice t₀.takeProfits.length t₀.initialQty i)
    (hadds : AddsUp t₀.long t₀.takeProfits t₀.initialQty) (hleft : t.remainingQty ≠ 0) (bars : List Bar)
    (hstop : AllSteps (step m) (fun t bar => t.Active → ¬ stopTouched bar t) t bars)
    (hcrossed : ∀ i < t₀.takeProfits.length, i ∈ order ∨ CrossedWhileOpen m (t₀.takeProfits.getD i 0) t bars) :
    TakenFull (run (step m) t bars) := by
  induction bars generalizing order first t with
  | nil =>
    exact absurd (hrep.left h hadds hq hdecimal htakes fun i hi => (hcrossed i hi).resolve_right id) hleft
  | cons bar bars ih =>
    obtain ⟨k', -, t', hladder, hend, -, -, hstop', filled, hstep⟩ := step_untouched m h (hstop.1 h.active)
    rw [run_cons]
    rcases settle_untouched (m := m) hladder hstop' filled with ⟨-, hfull⟩ | ⟨hleft', hnext⟩
    · rw [← hstep] at hfull
      have hdone : ¬ (step m t bar).Active := by
        rintro (hstate | hstate) <;> rw [hfull.state] at hstate <;> cases hstate
      rw [run_inactive hdone]
      exact hfull
    · -- something is left, so no tier is stuck
      have hall : k' = t₀.takeProfits.length := by
        refine hend.resolve_right fun hstuck => hstuck.2.2.not_gt ?_
        exact lt_min (htakes k' hstuck.1) (lt_of_le_of_ne hladder.nonneg hleft'.symm)
      subst hall
      obtain ⟨first', hrep'⟩ := hrep.crossing h bar
      rw [← hstep] at hnext
      -- the levels of this bar are taken, and the others are crossed later
      have hlater : ∀ i < t₀.takeProfits.length, i ∈ order ++ newTiers t bar t₀.takeProfits.length ∨
          CrossedWhileOpen m (t₀.takeProfits.getD i 0) (step m t bar) bars := by
        intro i hi
        rcases hcrossed i hi with hmem | ⟨-, hnow⟩ | hlater
        · exact .inl (List.mem_append_left _ hmem)
        · exact .inl (h.mem_newTiers hi (h.takeProfits ▸ hnow))
        · exact .inr hlater
      rcases hnext with ⟨s, hs⟩ | ⟨hdone, -⟩
      · rw [hs] at hlater ⊢
        exact ih (hladder.restop s) hrep' hleft' (hs ▸ hstop.2) hlater
      · have hmem : ∀ i < t₀.takeProfits.length, i ∈ order ++ newTiers t bar t₀.takeProfits.length :=
          fun i hi => (hlater i hi).resolve_right (not_crossedWhileOpen hdone bars)
        exact absurd (hrep'.left hladder hadds hq hdecimal htakes hmem) hleft'

/-- The farthest of the entry and some levels. -/
theorem exists_farthest (long : Bool) (levels : List ℚ) (entry : ℚ) (order : List ℕ) :
    ∃ r, (r = entry ∨ ∃ i ∈ order, r = levels.getD i 0) ∧ ¬ Nearer long r entry ∧
      ∀ i ∈ order, ¬ Nearer long r (levels.getD i 0) := by
  induction order with
  | nil => exact ⟨entry, .inl rfl, by cases long <;> simp [Nearer], by simp⟩
  | cons i order ih =>
    obtain ⟨r, hr, hentry, hfar⟩ := ih
    by_cases hnear : Nearer long r (levels.getD i 0)
    · refine ⟨levels.getD i 0, .inr ⟨i, by simp, rfl⟩, ?_, ?_⟩
      · cases long <;> simp only [Nearer, Bool.false_eq_true, if_false, if_true] at hnear hentry ⊢ <;> linarith
      · refine List.forall_mem_cons.2 ⟨by cases long <;> simp [Nearer], fun j hj => ?_⟩
        have hbefore := hfar j hj
        cases long <;> simp only [Nearer, Bool.false_eq_true, if_false, if_true] at hnear hbefore ⊢ <;> linarith
    · refine ⟨r, ?_, hentry, List.forall_mem_cons.2 ⟨hnear, hfar⟩⟩
      rcases hr with hr | ⟨j, hj, hr⟩
      · exact .inl hr
      · exact .inr ⟨j, List.mem_cons_of_mem _ hj, hr⟩

/-- A bar at one price. -/
def flatBar (r : ℚ) : Bar := ⟨0, 0, r, r, r⟩

theorem crossed_flatBar {long : Bool} {r tp : ℚ} : crossed (flatBar r) long tp ↔ ¬ Nearer long r tp := by
  cases long <;> simp [crossed, flatBar, Nearer]

/-- A bar that crosses every level and leaves the stop alone. -/
theorem exists_sweeping_bar (t : IqTrade) :
    ∃ bar : Bar, ¬ stopTouched bar t ∧ ∀ tp ∈ t.takeProfits, crossed bar t.long tp := by
  let beyond := if t.long then t.stopLoss + 1 else t.stopLoss - 1
  obtain ⟨r, -, hstop, hfar⟩ := exists_farthest t.long t.takeProfits beyond (List.range t.takeProfits.length)
  refine ⟨flatBar r, ?_, fun tp htp => ?_⟩
  · unfold stopTouched
    cases hlong : t.long <;> simp only [hlong, beyond, Nearer, flatBar, Bool.false_eq_true, if_false, if_true] at hstop ⊢ <;>
      linarith
  · obtain ⟨i, hi, rfl⟩ := List.getElem_of_mem htp
    have hcrossed := hfar i (List.mem_range.2 hi)
    rwa [List.getD_eq_getElem _ _ hi, ← crossed_flatBar] at hcrossed

/-- One bar that crosses every level takes the slices in the order of the list. -/
theorem leftOver_of_takesFull (h : OnLadder t [] t) (hunfilled : ∀ i, ¬ 0 < t.tierPnl i) (hfull : TakesFull m t) :
    leftOver t.initialQty ((List.range t.takeProfits.length).map (tierSlice t.takeProfits.length t.initialQty)) = 0 := by
  obtain ⟨bar, hstop, hcrossed⟩ := exists_sweeping_bar t
  have htaken : TakenFull (step m t bar) :=
    hfull [bar] ⟨fun _ => hstop, trivial⟩ fun tp htp => .inl ⟨h.active, hcrossed tp htp⟩
  obtain ⟨k', hk', t', hladder, hend, -, -, hstop', filled, hstep⟩ := step_untouched m h hstop
  have hindex (k : ℕ) (hk : k ≤ t.takeProfits.length) : newTiers t bar k = List.range k := by
    refine List.filter_eq_self.2 fun i hi => decide_eq_true ⟨hunfilled i, hcrossed _ ?_⟩
    rw [List.getD_eq_getElem _ _ ((List.mem_range.1 hi).trans_le hk)]
    exact List.getElem_mem _
  rw [List.nil_append, hindex k' hk'] at hladder
  rcases settle_untouched (m := m) hladder hstop' filled with ⟨hzero, -⟩ | ⟨-, ⟨s, hs⟩ | ⟨-, hother⟩⟩
  · -- what was taken last leaves nothing for the others
    have hsplit : List.range t.takeProfits.length = List.range k' ++ (List.range t.takeProfits.length).drop k' := by
      conv_lhs => rw [← List.take_append_drop k' (List.range t.takeProfits.length)]
      rw [List.take_range, min_eq_left hk']
    rw [hsplit, List.map_append, hladder.remaining, hzero, leftOver_zero]
  · rw [hstep, hs] at htaken
    have hnone : some TradeOutcome.takeProfitFull = none := htaken.outcome.symm.trans hladder.outcome
    cases hnone
  · rw [← hstep] at hother
    exact absurd htaken.outcome hother

/-- A bar that crosses the levels of the order and no others. -/
theorem Reached.exists_bar (h : Reached t₀.long t₀.takeProfits order) (hw : Winning t₀) :
    ∃ r, ¬ Nearer t₀.long r t₀.entryPrice ∧
      ∀ i < t₀.takeProfits.length, crossed (flatBar r) t₀.long (t₀.takeProfits.getD i 0) ↔ i ∈ order := by
  obtain ⟨r, hr, hentry, hfar⟩ := exists_farthest t₀.long t₀.takeProfits t₀.entryPrice order
  refine ⟨r, hentry, fun i hi => ?_⟩
  rw [crossed_flatBar]
  constructor
  · intro hcrossed
    by_contra hout
    rcases hr with rfl | ⟨j, hj, rfl⟩
    · have hwin := hw (t₀.takeProfits.getD i 0) (by rw [List.getD_eq_getElem _ _ hi]; exact List.getElem_mem hi)
      exact hcrossed hwin
    · exact hcrossed (h.apart hj hi hout)
  · exact hfar i

theorem crossedWhileOpen_append {tp : ℚ} {bars bars' : List Bar} :
    CrossedWhileOpen m tp t (bars ++ bars') ↔
      CrossedWhileOpen m tp t bars ∨ CrossedWhileOpen m tp (run (step m) t bars) bars' := by
  induction bars generalizing t with
  | nil => simp [CrossedWhileOpen]
  | cons bar bars ih => rw [List.cons_append, CrossedWhileOpen, CrossedWhileOpen, ih, run_cons, or_assoc]

/-- No trail, no hook, and time for `bars` bars. -/
def patient (bars : ℕ) : IqLifecycleManager := ⟨⟨0, 0, 0⟩, none, bars, none⟩

theorem settle_patient {bars : ℕ} (hleft : t.remainingQty ≠ 0) (hheld : t.barsHeld < bars) (long : Bool)
    (filled : List Bool) : ((patient bars).settle bar long false filled t).trade = t := by
  simp [settle, trailingStop, patient, hleft, not_le.2 hheld, Disposition.trade]

/-- A life up to now that follows the order. -/
structure Followed (n : ℕ) (t₀ : IqTrade) (order : List ℕ) (bars : List Bar) (t : IqTrade) : Prop
    extends OnLadder t₀ order t where
  run : run (step (patient n)) t₀ bars = t
  untouched : AllSteps (step (patient n)) (fun t bar => t.Active → ¬ stopTouched bar t) t₀ bars
  crossed : ∀ i ∈ order, CrossedWhileOpen (patient n) (t₀.takeProfits.getD i 0) t₀ bars
  stopLoss : t.stopLoss = t₀.stopLoss
  barsHeld : t.barsHeld ≤ t₀.barsHeld + bars.length

/-- The stop is on the losing side of the entry. -/
def Behind (t : IqTrade) : Prop := Nearer t.long t.stopLoss t.entryPrice

theorem not_stopTouched_flatBar (h : OnLadder t₀ order t) (hbehind : Behind t₀) (hstop : t.stopLoss = t₀.stopLoss) {r : ℚ}
    (hr : ¬ Nearer t₀.long r t₀.entryPrice) : ¬ stopTouched (flatBar r) t := by
  unfold stopTouched
  unfold Behind at hbehind
  rw [h.long, hstop]
  cases hlong : t₀.long <;> rw [hlong] at hbehind hr <;>
    simp only [Nearer, flatBar, Bool.false_eq_true, if_false, if_true] at hbehind hr ⊢ <;> linarith

/-- Where every tier takes and gains something and something is left, bars can follow any order to its end. -/
theorem Reached.followed (hw : Winning t₀) (hbehind : Behind t₀) (hfresh : OnLadder t₀ [] t₀)
    (hgains : ∀ i < t₀.takeProfits.length, 0 < gain t₀ i)
    (htakes : ∀ i < t₀.takeProfits.length, 0 < tierSlice t₀.takeProfits.length t₀.initialQty i)
    (h : Reached t₀.long t₀.takeProfits order)
    (hleft : leftOver t₀.initialQty (order.map (tierSlice t₀.takeProfits.length t₀.initialQty)) ≠ 0) :
    ∃ bars : List Bar, ∀ n, t₀.barsHeld + bars.length < n → ∃ t, Followed n t₀ order bars t := by
  induction h with
  | start => exact ⟨[], fun n _ => ⟨t₀, hfresh, rfl, trivial, by simp, rfl, le_rfl⟩⟩
  | @bar order now hreached hnew hapart ih =>
    have hfull : Reached t₀.long t₀.takeProfits _ := .bar now hreached hnew hapart
    have hbefore : leftOver t₀.initialQty (order.map (tierSlice t₀.takeProfits.length t₀.initialQty)) ≠ 0 := by
      intro hzero
      rw [List.map_append] at hleft
      exact hleft (leftOver_append_of_zero hzero _)
    obtain ⟨bars, hbars⟩ := ih hbefore
    obtain ⟨r, hr, hcrosses⟩ := hfull.exists_bar hw
    refine ⟨bars ++ [flatBar r], fun n hn => ?_⟩
    rw [List.length_append, List.length_singleton] at hn
    obtain ⟨t, ht⟩ := hbars n (by omega)
    have hstop : ¬ stopTouched (flatBar r) t := not_stopTouched_flatBar ht.toOnLadder hbehind ht.stopLoss hr
    obtain ⟨k', hk', t', hladder, hend, hkeep, hheld, -, filled, hstep⟩ :=
      step_untouched (patient n) ht.toOnLadder hstop
    have hnow : newTiers t (flatBar r) t₀.takeProfits.length = (List.range t₀.takeProfits.length).filter now := by
      refine List.filter_congr fun i hi => ?_
      have hlt := List.mem_range.1 hi
      have hiff := hcrosses i hlt
      have hout := hnew i hlt
      have hfilled : 0 < t.tierPnl i ↔ i ∈ order :=
        ⟨ht.pnl i, fun hmem => ht.kept (by rwa [← ht.left]) i hmem (hgains i hlt)⟩
      rw [ht.toOnLadder.long, ht.takeProfits]
      simp only [hfilled, hiff]
      cases hi' : now i <;> simp_all
    -- something is left, so no tier is stuck
    obtain ⟨later, hlater⟩ := newTiers_mono t (flatBar r) hk'
    have hleft' : t'.remainingQty ≠ 0 := by
      intro hzero
      rw [← hnow, hlater, ← List.append_assoc, List.map_append, hladder.remaining, hzero, leftOver_zero] at hleft
      exact hleft rfl
    have hall : k' = t₀.takeProfits.length := by
      refine hend.resolve_right fun hstuck => hstuck.2.2.not_gt ?_
      exact lt_min (htakes k' hstuck.1) (lt_of_le_of_ne hladder.nonneg hleft'.symm)
    subst hall
    rw [hnow] at hladder
    have hrun : run (step (patient n)) t₀ (bars ++ [flatBar r]) = t' := by
      rw [run_append, ht.run, run_cons, run_nil, hstep, settle_patient hleft']
      exact (hheld.trans (Nat.succ_le_succ ht.barsHeld)).trans_lt (by omega)
    have hstops : t'.stopLoss = t₀.stopLoss := hkeep.trans ht.stopLoss
    refine ⟨t', hladder, hrun, ?_, fun i hi => ?_, hstops, ?_⟩
    · rw [allSteps_append, ht.run]
      exact ⟨ht.untouched, fun _ => hstop, trivial⟩
    · rw [crossedWhileOpen_append, ht.run]
      have hlt := hfull.lt i hi
      exact .inr (.inl ⟨ht.active, ht.toOnLadder.long ▸ (hcrosses i hlt).2 hi⟩)
    · rw [List.length_append, List.length_singleton]
      exact hheld.trans (by have := ht.barsHeld; omega)

/-- The slices add up where patience is always rewarded. -/
theorem addsUp_of_takesFull (hw : Winning t₀) (hbehind : Behind t₀) (hfresh : OnLadder t₀ [] t₀)
    (hgains : ∀ i < t₀.takeProfits.length, 0 < gain t₀ i)
    (htakes : ∀ i < t₀.takeProfits.length, 0 < tierSlice t₀.takeProfits.length t₀.initialQty i)
    (hfull : ∀ n, TakesFull (patient n) t₀) : AddsUp t₀.long t₀.takeProfits t₀.initialQty := by
  intro order hreached hall
  by_contra hleft
  obtain ⟨bars, hbars⟩ := hreached.followed hw hbehind hfresh hgains htakes hleft
  obtain ⟨t, ht⟩ := hbars (t₀.barsHeld + bars.length + 1) (Nat.lt_succ_self _)
  have htaken := hfull _ bars ht.untouched fun tp htp => by
    obtain ⟨i, hi, rfl⟩ := List.getElem_of_mem htp
    have hcrossed := ht.crossed i (hall i hi)
    rwa [List.getD_eq_getElem _ _ hi] at hcrossed
  rw [ht.run] at htaken
  rcases ht.active with hstate | hstate <;> rw [htaken.state] at hstate <;> cases hstate

end life

/-! ## A fresh trade -/

theorem fresh_tierPnl (tradeId : Uuid) (polarity : IqPolarity) (entryBar : ℕ) (entryTime : DateTime)
    (entryPrice stopLoss : ℚ) (takeProfits : List ℚ) (initialQty : ℚ) (i : ℕ) :
    ¬ 0 < (pending tradeId polarity entryBar entryTime entryPrice stopLoss takeProfits initialQty).opened.tierPnl i := by
  simp only [tierPnl, opened, pending, List.getD_eq_getElem?_getD, List.getElem?_replicate]
  split <;> exact lt_irrefl 0

theorem onLadder_fresh (tradeId : Uuid) (polarity : IqPolarity) (entryBar : ℕ) (entryTime : DateTime)
    (entryPrice stopLoss : ℚ) (takeProfits : List ℚ) {initialQty : ℚ} (hq : 0 < initialQty) :
    OnLadder (pending tradeId polarity entryBar entryTime entryPrice stopLoss takeProfits initialQty).opened []
      (pending tradeId polarity entryBar entryTime entryPrice stopLoss takeProfits initialQty).opened where
  initialQty := rfl
  takeProfits := rfl
  entryPrice := rfl
  polarity := rfl
  active := .inl rfl
  outcome := rfl
  pnl i hpos := absurd hpos (fresh_tierPnl tradeId polarity entryBar entryTime entryPrice stopLoss takeProfits initialQty i)
  kept _ _ hi := absurd hi List.not_mem_nil
  nonneg := hq.le
  remaining _ := rfl

section slices
variable {n : ℕ} {qty : ℚ}

/-- But for three targets all tiers are alike. -/
theorem tierSlice_eq (hn : n ≠ 3) {i : ℕ} (hi : i < n) : tierSlice n qty i = tierSlice n qty 0 := by
  unfold tierSlice tpFractions
  rw [if_neg (by omega), if_neg hn, List.getD_replicate _ hi, List.getD_replicate _ (by omega)]

theorem map_tierSlice (hn : n ≠ 3) {order : List ℕ} (hlt : ∀ i ∈ order, i < n) :
    order.map (tierSlice n qty) = List.replicate order.length (tierSlice n qty 0) := by
  rw [List.map_congr_left fun i hi => tierSlice_eq hn (hlt i hi), List.map_const']

/-- No tier takes less than the first. -/
theorem tierSlice_pos (hq : 0 < qty) (hfirst : 0 < tierSlice n qty 0) {i : ℕ} (hi : i < n) : 0 < tierSlice n qty i := by
  by_cases hn : n = 3
  · subst hn
    unfold tierSlice at hfirst ⊢
    rw [decimal_pos_iff] at hfirst ⊢
    refine hfirst.trans_le (mul_le_mul_of_nonneg_left ?_ hq.le)
    rcases i with _ | _ | _ | i <;> simp [tpFractions] at hi ⊢ <;> norm_num
  · rwa [tierSlice_eq hn hi]

/-- A split that adds up takes something at once. -/
theorem tierSlice_zero_pos (hn : n ≠ 0) (hq : 0 < qty) (hadds : leftOver qty ((List.range n).map (tierSlice n qty)) = 0) :
    0 < tierSlice n qty 0 := by
  obtain ⟨k, rfl⟩ := Nat.exists_eq_succ_of_ne_zero hn
  rw [List.range_succ_eq_map, List.map_cons] at hadds
  by_contra hnone
  rw [leftOver_stuck (min_le_of_left_le (not_lt.1 hnone))] at hadds
  exact hq.ne' hadds

end slices

/-- **The whole position.** A trade with winning levels, all of them crossed and the stop untouched, is closed as taken
in full exactly where the slices of its tiers leave nothing. For three targets that is in every order in which the levels
can be reached, which is enough for every manager, and needed where no tier's pnl is rounded to zero. -/
theorem takesFull_iff (polarity : IqPolarity) (entryPrice : ℚ) (takeProfits : List ℚ) (initialQty : ℚ)
    (hne : takeProfits ≠ []) (hq : 0 < initialQty) (hdecimal : decimal initialQty = initialQty)
    (hw : ∀ tp ∈ takeProfits, Nearer (polarity = .dip) entryPrice tp) :
    (takeProfits.length ≠ 3 → ∀ m tradeId entryBar entryTime stopLoss, TakesFull m
        (pending tradeId polarity entryBar entryTime entryPrice stopLoss takeProfits initialQty).opened ↔
      leftOver initialQty (List.replicate takeProfits.length (tierSlice takeProfits.length initialQty 0)) = 0) ∧
    (AddsUp (polarity = .dip) takeProfits initialQty → ∀ m tradeId entryBar entryTime stopLoss, TakesFull m
        (pending tradeId polarity entryBar entryTime entryPrice stopLoss takeProfits initialQty).opened) ∧
    ((∀ i < takeProfits.length, 0 < slicePnl entryPrice (takeProfits.getD i 0)
        (tierSlice takeProfits.length initialQty i) (polarity = .dip)) →
      (∀ m tradeId entryBar entryTime stopLoss, TakesFull m
        (pending tradeId polarity entryBar entryTime entryPrice stopLoss takeProfits initialQty).opened) →
      AddsUp (polarity = .dip) takeProfits initialQty) := by
  have hn : takeProfits.length ≠ 0 := fun hnil => hne (List.eq_nil_of_length_eq_zero hnil)
  have hfresh (tradeId entryBar entryTime stopLoss) :=
    onLadder_fresh tradeId polarity entryBar entryTime entryPrice stopLoss takeProfits hq
  have hsweep (m tradeId entryBar entryTime stopLoss) (hfull : TakesFull m
      (pending tradeId polarity entryBar entryTime entryPrice stopLoss takeProfits initialQty).opened) :
      leftOver initialQty ((List.range takeProfits.length).map (tierSlice takeProfits.length initialQty)) = 0 :=
    leftOver_of_takesFull (hfresh tradeId entryBar entryTime stopLoss)
      (fresh_tierPnl tradeId polarity entryBar entryTime entryPrice stopLoss takeProfits initialQty) hfull
  have hsuffices (hadds : AddsUp (polarity = .dip) takeProfits initialQty)
      (m tradeId entryBar entryTime stopLoss) : TakesFull m
        (pending tradeId polarity entryBar entryTime entryPrice stopLoss takeProfits initialQty).opened := by
    intro bars hstop hcrossed
    have hfirst := tierSlice_zero_pos hn hq (hadds _ .index fun i hi => List.mem_range.2 hi)
    refine (hfresh tradeId entryBar entryTime stopLoss).run_takenFull ⟨.start, .slnil, by simp⟩ hq hdecimal
      (fun i hi => tierSlice_pos hq hfirst hi) hadds hq.ne' bars hstop fun i hi => .inr (hcrossed _ ?_)
    rw [List.getD_eq_getElem _ _ hi]
    exact List.getElem_mem hi
  refine ⟨fun hthree m tradeId entryBar entryTime stopLoss => ⟨fun hfull => ?_, fun hadds => ?_⟩, hsuffices,
    fun hgains hfull => ?_⟩
  · have hadds := hsweep m tradeId entryBar entryTime stopLoss hfull
    rwa [map_tierSlice hthree fun i => List.mem_range.1, List.length_range] at hadds
  · refine hsuffices (fun order hreached hall => ?_) m tradeId entryBar entryTime stopLoss
    rwa [map_tierSlice hthree hreached.lt, hreached.length_eq hall]
  · -- a stop one behind the entry
    let stopLoss := if polarity = .dip then entryPrice - 1 else entryPrice + 1
    have hbehind : Behind (pending 0 polarity 0 0 entryPrice stopLoss takeProfits initialQty).opened := by
      cases polarity <;> simp [Behind, Nearer, IqTrade.long, opened, pending, stopLoss]
    have hwin : Winning (pending 0 polarity 0 0 entryPrice stopLoss takeProfits initialQty).opened := hw
    have hfirst := tierSlice_zero_pos hn hq (hsweep (patient 0) 0 0 0 stopLoss (hfull (patient 0) 0 0 0 stopLoss))
    exact addsUp_of_takesFull hwin hbehind (hfresh 0 0 0 stopLoss) hgains (fun i hi => tierSlice_pos hq hfirst hi)
      fun n => hfull (patient n) 0 0 0 stopLoss

-- seven tiers of a half, each rounded down again, although seven times the rounded seventh is more than one
example : leftOver (1 / 2) (List.replicate 7 (tierSlice 7 (1 / 2) 0)) = 2 / 10 ^ 28 := by decide +kernel

theorem takesFull_two_targets :
    (2 ≠ 3 → ∀ m tradeId entryBar entryTime stopLoss,
        TakesFull m (pending tradeId .dip entryBar entryTime 100 stopLoss [110, 120] 1).opened ↔
      leftOver 1 (List.replicate 2 (tierSlice 2 1 0)) = 0) ∧
    (AddsUp true [110, 120] 1 → ∀ m tradeId entryBar entryTime stopLoss,
        TakesFull m (pending tradeId .dip entryBar entryTime 100 stopLoss [110, 120] 1).opened) ∧
    ((∀ i < 2, 0 < slicePnl 100 ([(110 : ℚ), 120].getD i 0) (tierSlice 2 1 i) true) →
      (∀ m tradeId entryBar entryTime stopLoss,
        TakesFull m (pending tradeId .dip entryBar entryTime 100 stopLoss [110, 120] 1).opened) →
      AddsUp true [110, 120] 1) :=
  takesFull_iff .dip 100 [110, 120] 1 (by simp) one_pos (by decide +kernel) (by simp [Nearer]; norm_num)

/-- Nine tiers of a rounded ninth. -/
def nineTargets : List ℚ := [101, 102, 103, 104, 105, 106, 107, 108, 109]

/-- A bar crosses all nine, and the last place of the quantity stays open. -/
theorem nine_targets_leave_dust : Winning (longTrade nineTargets)
    ∧ (step plainManager (longTrade nineTargets) ⟨1, 60, 110, 108, 110⟩).state = .scalingOut
    ∧ (step plainManager (longTrade nineTargets) ⟨1, 60, 110, 108, 110⟩).remainingQty = 1 / 10 ^ 28
    ∧ ¬ TakesFull plainManager (longTrade nineTargets) := by
  have hw : Winning (longTrade nineTargets) := by
    unfold Winning
    decide +kernel
  refine ⟨hw, by decide +kernel, by decide +kernel, fun hfull => ?_⟩
  have hadds := leftOver_of_takesFull (onLadder_fresh 1 .dip 0 0 100 90 nineTargets one_pos)
    (fresh_tierPnl 1 .dip 0 0 100 90 nineTargets 1) hfull
  revert hadds
  decide +kernel

end Qtss.Backtest.Iq.Rounded
