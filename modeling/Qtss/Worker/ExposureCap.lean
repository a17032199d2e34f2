import Mathlib.Algebra.Order.BigOperators.Group.List
import Qtss.Worker.BridgeBooks
/-
# What the execution bridge lets a book grow to (execution_bridge.rs:526)

| here | there |
| --- | --- |
| `openNotional`          | `SELECT SUM(qty_filled * entry_avg) … closed_at IS NULL` (:547) |
| `maxAggregateNotional`  | `max_aggregate_notional` (:545) |
| `riskQty`, `notionalQty` | `raw_qty`, `max_qty_by_notional` of `size_from_risk` |
| `Accepted`              | `dispatch_dry` or `dispatch_live` inserts a position |

"Total open notional must stay below equity × leverage × aggregate_fraction." The gate asks what is open before
the new position and not what is open with it, and the size of the new position knows only the cap of its own
and not the room that is left. So a book that is just below its cap can grow past it by a whole position
(`two_pass_the_cap`).

"Final qty = the SMALLER of the two" is rounded to the nearest, so it may come out above both, and where it rounds
to nothing 0.01 is bought. `sizeFromRisk_le_iff` says when a size stays below a limit, `withinLimits_iff` when
the book and the risk of each position do.
-/

namespace Qtss.Worker
open Storage Runs

/-! ## Rounding -/

/-- `u` rounds, to the nearest and ties to even, to no more than `limit`. -/
def RoundsWithin (dp : ℕ) (u limit : ℚ) : Prop :=
  u * 10 ^ dp < ⌊limit * 10 ^ dp⌋ + 1 / 2 ∨
    u * 10 ^ dp = ⌊limit * 10 ^ dp⌋ + 1 / 2 ∧ ⌊limit * 10 ^ dp⌋ % 2 = 0

instance (dp : ℕ) (u limit : ℚ) : Decidable (RoundsWithin dp u limit) :=
  inferInstanceAs (Decidable (_ ∨ _))

/-- The nearest integer to `s`, against a whole number of units. -/
theorem nearest_le_iff {s : ℚ} {units : ℤ} :
    (if s - ⌊s⌋ < 1 / 2 then ⌊s⌋ else if s - ⌊s⌋ > 1 / 2 then ⌊s⌋ + 1
      else if ⌊s⌋ % 2 = 0 then ⌊s⌋ else ⌊s⌋ + 1) ≤ units ↔
      s < units + 1 / 2 ∨ s = units + 1 / 2 ∧ units % 2 = 0 := by
  have hle := Int.floor_le s
  have hlt := Int.lt_floor_add_one s
  generalize ⌊s⌋ = n at hle hlt ⊢
  have hcast : n ≤ units ↔ (n : ℚ) ≤ units := Int.cast_le.symm
  have hsucc : n + 1 ≤ units ↔ (n : ℚ) < units := by rw [Int.add_one_le_iff, Int.cast_lt]
  have hhalf : (n : ℚ) ≤ units ∨ (units : ℚ) + 1 ≤ n := by
    rcases le_or_gt n units with h | h
    · exact .inl (hcast.1 h)
    · exact .inr (by exact_mod_cast Int.add_one_le_iff.2 h)
  split
  · rw [hcast]
    constructor
    · intro h
      exact .inl (by linarith)
    · rintro (h | ⟨h, -⟩) <;> rcases hhalf with h' | h' <;> linarith
  split
  · rw [hsucc]
    constructor
    · intro h
      have : (n : ℚ) + 1 ≤ units := by exact_mod_cast hsucc.2 h
      exact .inl (by linarith)
    · rintro (h | ⟨h, -⟩) <;> linarith
  have htie : s = n + 1 / 2 := by linarith
  split
  · rename_i heven
    rw [hcast]
    constructor
    · intro h
      rcases h.lt_or_eq with h | h
      · exact .inl (by linarith)
      · exact .inr ⟨by rw [htie, h], by rwa [← Int.cast_injective h]⟩
    · rintro (h | ⟨h, -⟩) <;> linarith
  · rename_i hodd
    rw [hsucc]
    constructor
    · intro h
      exact .inl (by linarith)
    · rintro (h | ⟨h, heven⟩)
      · linarith
      · have : (n : ℚ) = units := by linarith
        exact absurd (Int.cast_injective this ▸ heven) hodd

theorem roundDp_le_iff {dp : ℕ} {u limit : ℚ} : roundDp dp u ≤ limit ↔ RoundsWithin dp u limit := by
  unfold roundDp RoundsWithin
  simp only
  rw [div_le_iff₀ (by positivity), ← Int.le_floor]
  exact nearest_le_iff

/-! ## Size -/

/-- `raw_qty` of `size_from_risk`: the quantity that loses `equity * risk_pct` at the stop. -/
def EntryConfig.riskQty (cfg : EntryConfig) (mode : Risk.ExecutionMode) (row : SelectedCandidateRow) : ℚ :=
  cfg.equity mode * row.riskPct / |row.entryPrice - row.slPrice|

/-- `max_qty_by_notional`. -/
def EntryConfig.notionalQty (cfg : EntryConfig) (mode : Risk.ExecutionMode) (row : SelectedCandidateRow) : ℚ :=
  cfg.equity mode * cfg.leverageUsed * clampTo (1 / 100) 1 cfg.maxPositionFraction / row.entryPrice

/-- No more than `limit` is bought: the smaller of the two sizes rounds to no more than it, and where that is
nothing, or there is no distance to the stop, the 0.01 bought instead is no more. -/
def SizedWithin (cfg : EntryConfig) (mode : Risk.ExecutionMode) (row : SelectedCandidateRow) (limit : ℚ) :
    Prop :=
  if row.entryPrice = row.slPrice then 1 / 100 ≤ limit
  else if 0 < row.entryPrice then
    if min (cfg.riskQty mode row) (cfg.notionalQty mode row) ≤ 1 / 20000 then 1 / 100 ≤ limit
    else RoundsWithin 4 (min (cfg.riskQty mode row) (cfg.notionalQty mode row)) limit
  else 1 / 100 ≤ limit ∧ RoundsWithin 4 (cfg.riskQty mode row) limit

variable {cfg : EntryConfig} {mode : Risk.ExecutionMode} {row : SelectedCandidateRow} {limit : ℚ}

variable (cfg mode) in
theorem EntryConfig.equity_pos : 0 < cfg.equity mode := by
  have hfilter : ∀ (v? : Option ℚ) (v : ℚ), v?.filter (· > 0) = some v → 0 < v := by
    intro v? v h
    simpa using (Option.filter_eq_some_iff.1 h).2
  unfold EntryConfig.equity
  split
  · rename_i v h
    exact hfilter _ v h
  · cases h : (cfg.forMode mode).defaultEquity.filter (· > 0) with
    | none => norm_num
    | some v => exact hfilter _ v h

/-- What is not above half a unit rounds to nothing. -/
theorem roundDp_nonpos_iff {u : ℚ} : roundDp 4 u ≤ 0 ↔ u ≤ 1 / 20000 := by
  rw [roundDp_le_iff, RoundsWithin]
  simp only [zero_mul, Int.floor_zero, Int.cast_zero, zero_add, Int.zero_emod, and_true]
  rw [← le_iff_lt_or_eq, ← le_div_iff₀ (by norm_num)]
  norm_num

/-- **What the size keeps to**, in the two sizes it is made of. -/
theorem sizeFromRisk_le_iff : sizeFromRisk cfg mode row ≤ limit ↔ SizedWithin cfg mode row limit := by
  have hequity : ¬ cfg.equity mode ≤ 0 := not_le.2 (cfg.equity_pos mode)
  have hdistance : |row.entryPrice - row.slPrice| ≤ 0 ↔ row.entryPrice = row.slPrice := by
    rw [abs_nonpos_iff, sub_eq_zero]
  unfold sizeFromRisk SizedWithin
  simp only [hequity, false_or, hdistance, gt_iff_lt, roundDp_nonpos_iff]
  split
  · rfl
  split
  · unfold EntryConfig.riskQty EntryConfig.notionalQty
    split
    · rfl
    · exact roundDp_le_iff
  · rw [max_le_iff, and_comm, roundDp_le_iff]
    rfl

/-! ## The book -/

def notional (p : LivePosition) : ℚ := p.qtyFilled * p.entryAvg

/-- What `current_open_notional` is read from. -/
def openNotional (mode : Risk.ExecutionMode) (positions : PositionTable) : ℚ :=
  ((openIn mode positions).map notional).sum

/-- `max_aggregate_notional`. -/
def EntryConfig.maxAggregateNotional (cfg : EntryConfig) (mode : Risk.ExecutionMode) : ℚ :=
  cfg.equity mode * cfg.leverageUsed * clampTo (1 / 10) 5 cfg.aggregateNotionalFraction

/-- What `p` loses at its stop, from the entry of the setup, is no more than its share of the equity. -/
def RiskWithin (cfg : EntryConfig) (p : InsertLivePosition) : Prop :=
  ∀ sl ∈ p.currentSl, p.qtyFilled * |p.metadata.entrySetup - sl| ≤ cfg.equity p.mode * p.metadata.riskPct

instance (cfg : EntryConfig) (p : InsertLivePosition) : Decidable (RiskWithin cfg p) :=
  inferInstanceAs (Decidable (∀ sl ∈ p.currentSl, _))

/-- Each mode is below its cap, and so is the risk of the positions that were accepted after the first `before`. -/
structure WithinLimits (cfg : EntryConfig) (before : ℕ) (positions : PositionTable) : Prop where
  cap : ∀ mode, openNotional mode positions ≤ cfg.maxAggregateNotional mode
  risk : ∀ p ∈ positions.drop before, RiskWithin cfg p.toInsertLivePosition

instance (cfg : EntryConfig) (before : ℕ) (positions : PositionTable) :
    Decidable (WithinLimits cfg before positions) :=
  decidable_of_iff ((openNotional .dry positions ≤ cfg.maxAggregateNotional .dry ∧
      openNotional .live positions ≤ cfg.maxAggregateNotional .live) ∧
      ∀ p ∈ positions.drop before, RiskWithin cfg p.toInsertLivePosition)
    ⟨fun h => ⟨fun mode => by cases mode; exacts [h.1.1, h.1.2], h.2⟩,
      fun h => ⟨⟨h.cap .dry, h.cap .live⟩, h.risk⟩⟩

/-- What stays open when the positions with this `id` are closed. -/
def othersNotional (mode : Risk.ExecutionMode) (id : Uuid) (positions : PositionTable) : ℚ :=
  (((openIn mode positions).filter (·.id ≠ id)).map notional).sum

variable {positions : PositionTable} {live : InsertLivePosition} {id : Uuid} {now : DateTime} {reason : String}
  {before : ℕ}

variable (cfg mode) in
theorem EntryConfig.maxAggregateNotional_pos : 0 < cfg.maxAggregateNotional mode := by
  have hleverage : 1 ≤ cfg.leverageUsed := le_max_left _ _
  have hleverage : (1 : ℚ) ≤ cfg.leverageUsed := by exact_mod_cast hleverage
  have hfraction : (1 : ℚ) / 10 ≤ clampTo (1 / 10) 5 cfg.aggregateNotionalFraction := le_max_left _ _
  unfold EntryConfig.maxAggregateNotional
  exact mul_pos (mul_pos (cfg.equity_pos mode) (by linarith)) (by linarith)

theorem openNotional_closed (h : ∀ p ∈ positions, p.closedAt.isSome) : openNotional mode positions = 0 := by
  have hnone : openIn mode positions = [] := by
    apply List.filter_eq_nil_iff.2
    intro p hp
    simp [Option.isSome_iff_ne_none.1 (h p hp)]
  rw [openNotional, hnone]
  rfl

theorem openNotional_insertLive : openNotional mode (positions.insertLive live id now) =
    openNotional mode positions + if live.mode = mode then live.qtyFilled * live.entryAvg else 0 := by
  unfold openNotional openIn PositionTable.insertLive
  by_cases hmode : live.mode = mode
  · simp [hmode, notional]
  · simp [hmode]

theorem openIn_closeLive : openIn mode (positions.closeLive id reason now) =
    (openIn mode positions).filter (·.id ≠ id) := by
  unfold openIn PositionTable.closeLive
  induction positions with
  | nil => rfl
  | cons p t ih =>
    rw [List.map_cons, List.filter_cons, List.filter_cons, ih]
    cases hclosed : p.closedAt with
    | none => by_cases hid : p.id = id <;> by_cases hmode : p.mode = mode <;> simp [hid, hclosed, hmode]
    | some _ => simp [hclosed]

theorem openNotional_closeLive :
    openNotional mode (positions.closeLive id reason now) = othersNotional mode id positions := by
  rw [openNotional, openIn_closeLive]
  rfl

variable (id) in
/-- What is closed and what stays open. -/
theorem othersNotional_add : othersNotional mode id positions +
    (((openIn mode positions).filter (·.id = id)).map notional).sum = openNotional mode positions := by
  have hperm := (List.filter_append_perm (fun p => decide (p.id ≠ id)) (openIn mode positions)).map notional
  have hsum := hperm.sum_eq
  rw [List.map_append, List.sum_append] at hsum
  simpa [othersNotional, openNotional] using hsum

/-- What carries a run: what is open has been filled. -/
structure Tracked (cfg : EntryConfig) (before : ℕ) (positions : PositionTable) : Prop where
  within : WithinLimits cfg before positions
  length : before ≤ positions.length
  filled : ∀ p ∈ positions, p.closedAt.isNone → 0 < p.qtyFilled

/-! ## Closing -/

/-- To close a position takes its notional out of the book. It can only hurt where that is negative. -/
def ClosesWithin (cfg : EntryConfig) (id : Uuid) (positions : PositionTable) : Prop :=
  ∀ mode, (∃ p ∈ openIn mode positions, p.id = id ∧ p.entryAvg < 0) →
    othersNotional mode id positions ≤ cfg.maxAggregateNotional mode

theorem Tracked.others_le (h : Tracked cfg before positions)
    (hentry : ∀ p ∈ openIn mode positions, p.id = id → 0 ≤ p.entryAvg) :
    othersNotional mode id positions ≤ openNotional mode positions := by
  have hclosed : 0 ≤ (((openIn mode positions).filter (·.id = id)).map notional).sum := by
    apply List.sum_nonneg
    intro x hx
    obtain ⟨p, hp, rfl⟩ := List.mem_map.1 hx
    obtain ⟨hp, hid⟩ := List.mem_filter.1 hp
    obtain ⟨hmem, hopen⟩ := List.mem_filter.1 hp
    rw [Bool.and_eq_true] at hopen
    have hfilled := h.filled p hmem hopen.2
    exact mul_nonneg hfilled.le (hentry p hp (by simpa using hid))
  rw [← othersNotional_add id]
  exact le_add_of_nonneg_right hclosed

theorem Tracked.closeLive (h : Tracked cfg before positions) (hcloses : ClosesWithin cfg id positions) :
    Tracked cfg before (positions.closeLive id reason now) where
  within.cap mode := by
    rw [openNotional_closeLive]
    by_cases hneg : ∃ p ∈ openIn mode positions, p.id = id ∧ p.entryAvg < 0
    · exact hcloses mode hneg
    · have hentry : ∀ p ∈ openIn mode positions, p.id = id → 0 ≤ p.entryAvg :=
        fun p hp hid => not_lt.1 fun hlt => hneg ⟨p, hp, hid, hlt⟩
      exact (h.others_le hentry).trans (h.within.cap mode)
  within.risk p hp := by
    unfold PositionTable.closeLive at hp
    rw [← List.map_drop] at hp
    obtain ⟨q, hq, rfl⟩ := List.mem_map.1 hp
    split <;> exact h.within.risk q hq
  length := by
    unfold PositionTable.closeLive
    rw [List.length_map]
    exact h.length
  filled p hp hopen := by
    obtain ⟨q, hq, rfl⟩ := List.mem_map.1 hp
    split at hopen
    · simp at hopen
    · rename_i hother
      rw [if_neg hother]
      exact h.filled q hq hopen

theorem closesWithin_of_cap (h : WithinLimits cfg before (positions.closeLive id reason now)) :
    ClosesWithin cfg id positions := by
  intro mode _
  have hcap := h.cap mode
  rwa [openNotional_closeLive] at hcap

/-! ## Accepting -/

/-- The entry that is written down. -/
def entryFor (cfg : EntryConfig) (mode : Risk.ExecutionMode) (row : SelectedCandidateRow) : ℚ :=
  entryAdjusted (liveSide row.direction) row.entryPrice (slipBps cfg mode)

/-- The new position takes no more than the room that is left under the cap, and puts no more than
`equity * risk_pct` at risk. -/
structure RowFits (cfg : EntryConfig) (mode : Risk.ExecutionMode) (row : SelectedCandidateRow)
    (positions : PositionTable) : Prop where
  cap : 0 < entryFor cfg mode row →
    SizedWithin cfg mode row ((cfg.maxAggregateNotional mode - openNotional mode positions) / entryFor cfg mode row)
  risk : if row.entryPrice = row.slPrice then 0 ≤ row.riskPct
    else SizedWithin cfg mode row (cfg.riskQty mode row)

variable {orgId userId : Uuid}

theorem riskWithin_positionOf : RiskWithin cfg (positionOf cfg orgId userId row mode) ↔
    if row.entryPrice = row.slPrice then 0 ≤ row.riskPct else SizedWithin cfg mode row (cfg.riskQty mode row) := by
  have hrisk : RiskWithin cfg (positionOf cfg orgId userId row mode) ↔
      sizeFromRisk cfg mode row * |row.entryPrice - row.slPrice| ≤ cfg.equity mode * row.riskPct := by
    simp [RiskWithin, positionOf]
  rw [hrisk]
  split
  · rename_i hsame
    rw [hsame, sub_self, abs_zero, mul_zero, mul_nonneg_iff_of_pos_left (cfg.equity_pos mode)]
  · rename_i hdistance
    rw [← sizeFromRisk_le_iff, EntryConfig.riskQty, le_div_iff₀ (abs_pos.2 (sub_ne_zero.2 hdistance))]

variable (row orgId userId id now) in
/-- The book with the new position. -/
theorem openNotional_positionOf (hcap : openNotional mode positions ≤ cfg.maxAggregateNotional mode) :
    openNotional mode (positions.insertLive (positionOf cfg orgId userId row mode) id now) ≤
        cfg.maxAggregateNotional mode ↔
      (0 < entryFor cfg mode row → SizedWithin cfg mode row
        ((cfg.maxAggregateNotional mode - openNotional mode positions) / entryFor cfg mode row)) := by
  have hnew : openNotional mode (positions.insertLive (positionOf cfg orgId userId row mode) id now) =
      openNotional mode positions + sizeFromRisk cfg mode row * entryFor cfg mode row := by
    rw [openNotional_insertLive]
    simp [positionOf, entryFor]
  rw [hnew, ← le_sub_iff_add_le']
  rcases lt_or_ge 0 (entryFor cfg mode row) with hentry | hentry
  · rw [← sizeFromRisk_le_iff, le_div_iff₀ hentry]
    exact ⟨fun h _ => h, fun h => h hentry⟩
  · have hsize : 0 < sizeFromRisk cfg mode row := sizeFromRisk_pos
    have hnonpos := mul_nonpos_of_nonneg_of_nonpos hsize.le hentry
    exact ⟨fun _ h => absurd h (not_lt.2 hentry), fun _ => hnonpos.trans (sub_nonneg.2 hcap)⟩

/-- The equity, the leverage and the aggregate fraction are those of `cfg`. -/
structure SameSettings (cfg cfg' : EntryConfig) : Prop where
  equity : ∀ mode, cfg'.equity mode = cfg.equity mode
  leverage : cfg'.leverageUsed = cfg.leverageUsed
  fraction : cfg'.aggregateNotionalFraction = cfg.aggregateNotionalFraction

variable {cfg' : EntryConfig}

theorem SameSettings.refl : SameSettings cfg cfg := ⟨fun _ => rfl, rfl, rfl⟩

theorem SameSettings.maxAggregateNotional (h : SameSettings cfg cfg') (mode : Risk.ExecutionMode) :
    cfg'.maxAggregateNotional mode = cfg.maxAggregateNotional mode := by
  simp only [EntryConfig.maxAggregateNotional, h.equity, h.leverage, h.fraction]

theorem SameSettings.riskWithin_iff (h : SameSettings cfg cfg') {p : InsertLivePosition} :
    RiskWithin cfg p ↔ RiskWithin cfg' p := by
  simp only [RiskWithin, h.equity]

/-- A new position keeps the limits exactly when it fits. -/
theorem Tracked.insertLive_iff (h : Tracked cfg before positions) (hsame : SameSettings cfg cfg') :
    WithinLimits cfg before (positions.insertLive (positionOf cfg' orgId userId row mode) id now) ↔
      RowFits cfg' mode row positions := by
  have hcap := hsame.maxAggregateNotional mode
  have hroom := openNotional_positionOf row id now orgId userId (hcap ▸ h.within.cap mode)
  rw [hcap] at hroom
  have hdrop : (positions.insertLive (positionOf cfg' orgId userId row mode) id now).drop before =
      positions.drop before ++
        [⟨positionOf cfg' orgId userId row mode, id, now, none, none⟩] := by
    rw [PositionTable.insertLive, List.drop_append_of_le_length h.length]
  constructor
  · intro hwithin
    refine ⟨?_, ?_⟩
    · rw [hcap]
      exact hroom.1 (hwithin.cap mode)
    · apply riskWithin_positionOf.1
      apply hsame.riskWithin_iff.1
      apply hwithin.risk ⟨positionOf cfg' orgId userId row mode, id, now, none, none⟩
      rw [hdrop]
      exact List.mem_append_right _ (List.mem_singleton_self _)
  · intro hfits
    constructor
    · intro mode'
      by_cases hmode : mode = mode'
      · subst hmode
        have hfit := hfits.cap
        rw [hcap] at hfit
        exact hroom.2 hfit
      · rw [openNotional_insertLive, if_neg (by exact hmode), add_zero]
        exact h.within.cap mode'
    · intro p hp
      rw [hdrop] at hp
      rcases List.mem_append.1 hp with hp | hp
      · exact h.within.risk p hp
      · rw [List.mem_singleton.1 hp]
        exact hsame.riskWithin_iff.2 (riskWithin_positionOf.2 hfits.risk)

theorem Tracked.insertLive (h : Tracked cfg before positions) (hsame : SameSettings cfg cfg')
    (hfits : RowFits cfg' mode row positions) :
    Tracked cfg before (positions.insertLive (positionOf cfg' orgId userId row mode) id now) where
  within := (h.insertLive_iff hsame).2 hfits
  length := by
    rw [PositionTable.insertLive, List.length_append]
    exact h.length.trans (Nat.le_add_right _ _)
  filled p hp hopen := by
    rcases PositionTable.mem_insertLive.1 hp with hp | rfl
    · exact h.filled p hp hopen
    · exact sizeFromRisk_pos

/-! ## Runs -/

variable {i : DispatchInput} {dryEnabled liveEnabled : Bool} {b : Bridge} {w : BridgeWorker}

/-- The dispatch of the row inserts a position of this mode. -/
def Accepted (i : DispatchInput) (row : SelectedCandidateRow) (dryEnabled liveEnabled : Bool)
    (positions : PositionTable) : Risk.ExecutionMode → Prop
  | .dry => row.mode = "dry" ∧ dryEnabled ∧
      (Resolved i.entry.cfg .dry ∧ gateStops i.entry positions row .dry = none) ∧ i.insertPosition.isOk
  | .live => row.mode = "live" ∧ liveEnabled ∧
      (BrokerAcks i row positions ∧ i.insertOrder.isOk) ∧ i.insertPosition.isOk

/-- What a dispatch does to the positions. -/
inductive Books (i : DispatchInput) (row : SelectedCandidateRow) (dryEnabled liveEnabled : Bool)
    (positions positions' : PositionTable) : Prop where
  | nothing (hnot : ∀ mode, ¬ Accepted i row dryEnabled liveEnabled positions mode)
    (hsame : positions' = positions)
  | accepted (mode : Risk.ExecutionMode) (orgId userId id : Uuid)
    (haccepted : ∀ mode', Accepted i row dryEnabled liveEnabled positions mode' ↔ mode' = mode)
    (hinsert : positions' = positions.insertLive (positionOf i.entry.cfg orgId userId row mode) id i.now)

variable (mode orgId userId) in
/-- A position that is built is inserted, or the insert fails. -/
theorem persistPosition_books (b' : Bridge) (hb : b'.positions = b.positions)
    (h : ∀ mode', Accepted i row dryEnabled liveEnabled b.positions mode' ↔
      mode' = mode ∧ i.insertPosition.isOk = true) :
    Books i row dryEnabled liveEnabled b.positions
      (persistPosition i (positionOf i.entry.cfg orgId userId row mode) b').1.positions := by
  cases hinsert : i.insertPosition with
  | ok id =>
    refine .accepted mode orgId userId id (fun mode' => ?_) ?_
    · rw [h, hinsert]
      exact and_iff_left rfl
    · simp [persistPosition, hinsert, hb]
  | error e =>
    refine .nothing (fun mode' haccepted => ?_) ?_
    · have hok := ((h mode').1 haccepted).2
      rw [hinsert] at hok
      cases hok
    · simp [persistPosition, hinsert, hb]

theorem dispatchDry_books (hdry : row.mode = "dry") :
    Books i row true liveEnabled b.positions (dispatchDry i row b).bridge.positions := by
  have hbuild := build_isSome_iff i.entry b.positions row .dry
  have hlive : ¬ Accepted i row true liveEnabled b.positions .live := by simp [Accepted, hdry]
  unfold dispatchDry
  cases h : buildLivePositionForMode i.entry b.positions row .dry with
  | none =>
    rw [h] at hbuild
    refine .nothing (fun mode => ?_) rfl
    cases mode with
    | dry => exact fun ha => absurd (hbuild.2 ha.2.2.1) nofun
    | live => exact hlive
  | some live =>
    rw [h] at hbuild
    obtain ⟨orgId, userId, rfl⟩ := build_eq_some h
    refine persistPosition_books .dry orgId userId b rfl fun mode => ?_
    cases mode with
    | dry => simp [Accepted, hdry, hbuild.1 rfl]
    | live => simpa using hlive

theorem dispatchLive_books (hlive : row.mode = "live") :
    Books i row dryEnabled true b.positions (dispatchLive i row b).bridge.positions := by
  have hplace := placeLive_isOk i row b.positions
  have hdry : ¬ Accepted i row dryEnabled true b.positions .dry := by simp [Accepted, hlive]
  unfold dispatchLive
  cases h : placeLive i row b.positions with
  | error e =>
    rw [h] at hplace
    refine .nothing (fun mode => ?_) rfl
    cases mode with
    | dry => exact hdry
    | live => exact fun ha => absurd (hplace.2 ha.2.2.1.1) nofun
  | ok sent =>
    obtain ⟨live, venue⟩ := sent
    obtain ⟨orgId, userId, rfl⟩ := build_eq_some (placeLive_eq_ok.1 h).1
    rw [h] at hplace
    cases horder : i.insertOrder with
    | error e =>
      refine .nothing (fun mode => ?_) rfl
      cases mode with
      | dry => exact hdry
      | live => simp [Accepted, horder, Except.isOk, Except.toBool]
    | ok _ =>
      refine persistPosition_books .live orgId userId { b with orders := b.orders ++ [_] } rfl fun mode => ?_
      cases mode with
      | dry => simpa using hdry
      | live => simp [Accepted, hlive, hplace.1 rfl, horder, Except.isOk, Except.toBool]

variable (i row dryEnabled liveEnabled b) in
theorem dispatch_books : Books i row dryEnabled liveEnabled b.positions
    (dispatch i row dryEnabled liveEnabled b).bridge.positions := by
  by_cases hdry : row.mode = "dry"
  · rw [dispatch_dry hdry]
    cases dryEnabled with
    | true => exact dispatchDry_books hdry
    | false =>
      refine .nothing (fun mode => ?_) rfl
      cases mode <;> simp [Accepted, hdry]
  by_cases hlive : row.mode = "live"
  · rw [dispatch_live hlive]
    cases liveEnabled with
    | true => exact dispatchLive_books hlive
    | false =>
      refine .nothing (fun mode => ?_) rfl
      cases mode <;> simp [Accepted, hlive]
  obtain ⟨result, h⟩ := dispatch_other i dryEnabled liveEnabled b hdry hlive
  rw [h]
  refine .nothing (fun mode => ?_) rfl
  cases mode <;> simp [Accepted, hdry, hlive]

/-- What a step has to meet. -/
def KeepsLimits (cfg : EntryConfig) (w : BridgeWorker) : BridgeOp → Prop
  | .dispatch i => ∀ row ∈ w.tick.rows.head?, ∀ mode,
      Accepted i row w.tick.dryEnabled w.tick.liveEnabled w.bridge.positions mode →
        RowFits i.entry.cfg mode row w.bridge.positions
  | .closePosition id _ _ => ClosesWithin cfg id w.bridge.positions
  | _ => True

/-- Every dispatch reads these settings. -/
def Settled (cfg : EntryConfig) : BridgeOp → Prop
  | .dispatch i => SameSettings cfg i.entry.cfg
  | _ => True

theorem claim_positions (c : ClaimInput) :
    (bridgeStep w (.claim c)).bridge.positions = w.bridge.positions := by
  cases hok : c.claimOk with
  | false => rw [claim_failed hok]
  | true => rw [claim_succeeded hok]

/-- The positions after the dispatch of the next row. -/
theorem dispatchNext_books {rows : List SelectedCandidateRow} (hrows : w.tick.rows = row :: rows) :
    Books i row w.tick.dryEnabled w.tick.liveEnabled w.bridge.positions
      (dispatchNext i w).bridge.positions := by
  rw [dispatchNext_cons hrows]
  simp only
  rw [processRow_positions]
  exact dispatch_books row i w.tick.dryEnabled w.tick.liveEnabled w.bridge

/-- What keeps the limits at one step. -/
theorem tracked_step {op : BridgeOp} (h : Tracked cfg before w.bridge.positions) (hsettled : Settled cfg op)
    (hkeeps : KeepsLimits cfg w op) : Tracked cfg before (bridgeStep w op).bridge.positions := by
  cases op with
  | enqueue id c now => exact h
  | claim c =>
    rw [claim_positions]
    exact h
  | closePosition id reason now => exact h.closeLive hkeeps
  | dispatch i =>
    cases hrows : w.tick.rows with
    | nil =>
      rw [dispatch_done hrows]
      exact h
    | cons row rows =>
      have hbooks := dispatchNext_books (i := i) hrows
      cases hbooks with
      | nothing hnot hsame => exact hsame ▸ h
      | accepted mode orgId userId id haccepted hinsert =>
        have hfits := hkeeps row (by simp [hrows]) _ ((haccepted _).2 rfl)
        exact hinsert ▸ h.insertLive hsettled hfits

/-- What does not keep them breaks them at once. -/
theorem limits_broken {op : BridgeOp} (h : Tracked cfg before w.bridge.positions) (hsettled : Settled cfg op)
    (hwithin : WithinLimits cfg before (bridgeStep w op).bridge.positions) : KeepsLimits cfg w op := by
  cases op with
  | enqueue id c now => trivial
  | claim c => trivial
  | closePosition id reason now => exact closesWithin_of_cap hwithin
  | dispatch i =>
    intro row hrow mode haccepted
    obtain ⟨rows, hrows⟩ : ∃ rows, w.tick.rows = row :: rows := by
      cases hrows : w.tick.rows with
      | nil => simp [hrows] at hrow
      | cons row' rows => exact ⟨rows, by simpa [hrows] using hrow⟩
    have hbooks := dispatchNext_books (i := i) hrows
    cases hbooks with
    | nothing hnot hsame => exact absurd haccepted (hnot mode)
    | accepted mode' orgId userId id honly hinsert =>
      obtain rfl := (honly mode).1 haccepted
      have hwithin : WithinLimits cfg before (dispatchNext i w).bridge.positions := hwithin
      rw [hinsert] at hwithin
      exact (h.insertLive_iff hsettled).1 hwithin

theorem Tracked.start (h : ∀ p ∈ positions, p.closedAt.isSome) : Tracked cfg positions.length positions where
  within.cap mode := by
    rw [openNotional_closed h]
    exact (cfg.maxAggregateNotional_pos _).le
  within.risk p hp := by simp at hp
  length := le_rfl
  filled p hp hopen := by
    have := h p hp
    rw [Option.isSome_iff_ne_none] at this
    exact absurd (Option.isNone_iff_eq_none.1 hopen) this

/-- **The limits of the book.** In every run of the bridge over constant settings, from no open positions: each mode
stays below its aggregate cap and each accepted position within its risk, in every state, exactly when every
accepted position fits the room that is left and its risk. -/
theorem withinLimits_iff (cfg : EntryConfig) (positions : PositionTable) (setups : List SetupRow)
    (ops : List BridgeOp) (hclosed : ∀ p ∈ positions, p.closedAt.isSome)
    (hsettled : ∀ op ∈ ops, Settled cfg op) :
    AllStates bridgeStep (fun w => WithinLimits cfg positions.length w.bridge.positions)
        (.start positions setups) ops ↔
      AllSteps bridgeStep (KeepsLimits cfg) (.start positions setups) ops := by
  apply allStates_iff_allSteps (J := fun w => Tracked cfg positions.length w.bridge.positions)
    (K := Settled cfg)
  · exact fun w h => h.within
  · exact fun w op h hop hkeeps => tracked_step h hop hkeeps
  · exact fun w op h hop hnot hwithin => hnot (limits_broken h hop hwithin)
  · exact .start hclosed
  · exact hsettled

/-- A long at 100 that risks 1 % with its stop at 99.88: 83.3333 are bought, for 8335 of a cap of 10000. -/
def tightLong (setupId : Uuid) (symbol : String) : InsertSelectedCandidate :=
  { longTo110 "dry" with setupId := setupId, symbol := symbol, slPrice := 9988 / 100 }

/-- Two of them in one tick. -/
def twoTightLongs : List BridgeOp :=
  [.enqueue 1 (tightLong 7 "BTCUSDT") 0, .enqueue 2 (tightLong 8 "ETHUSDT") 0, .claim claimAll,
    .dispatch (dispatchAt 100), .dispatch { dispatchAt 100 with insertPosition := .ok 14 }]

theorem withinLimits_iff_of_two :
    AllStates bridgeStep (fun w => WithinLimits (entryAt 100).cfg 0 w.bridge.positions) (.start [] [])
        twoTightLongs ↔
      AllSteps bridgeStep (KeepsLimits (entryAt 100).cfg) (.start [] []) twoTightLongs := by
  have hsettled : ∀ op ∈ twoTightLongs, Settled (entryAt 100).cfg op := by
    simp [twoTightLongs, Settled, dispatchAt, SameSettings.refl]
  have hclosed : ∀ p ∈ ([] : PositionTable), p.closedAt.isSome := by simp
  exact withinLimits_iff (entryAt 100).cfg [] [] twoTightLongs hclosed hsettled

/-- Both are accepted: the second is let in at 8335 of 10000, and 16670 are open. -/
theorem two_pass_the_cap : ¬ AllStates bridgeStep
    (fun w => WithinLimits (entryAt 100).cfg 0 w.bridge.positions) (.start [] []) twoTightLongs := by
  decide +kernel

end Qtss.Worker
