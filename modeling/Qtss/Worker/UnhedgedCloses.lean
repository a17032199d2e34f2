import Qtss.Worker.BridgeBooks
import Qtss.Worker.PositionClosers
/-
# Closed rows and the positions behind them

"broker-filled positions being tracked tick-by-tick. One row per … open position" (migration 0143), and the
reconciler takes a closed row for "Broker has zero/no position". No loop that closes a row sends an order: the
bridge only enters, and the exits of `position_manager.rs` belong to `exchange_orders` books, not to these rows.
So a live row that is closed leaves its position at the broker.

`booksTied_iff`: in every state of a run each closed live row has its acknowledged exit exactly when no step of
the run closes a live row, that is when no open live row meets the stop, a panic close, the end of its ladder,
the time stop or a supersede whose UPDATE succeeds.
-/

namespace Qtss.Worker
open Storage Risk Runs

/-- The order takes the rest of the position off the broker. -/
def AckedOrder.IsExitOf (o : AckedOrder) (p : LivePosition) : Prop :=
  o.purpose = .exit p.id ∧ o.intent.quantity = p.qtyRemaining

instance (o : AckedOrder) (p : LivePosition) : Decidable (o.IsExitOf p) :=
  inferInstanceAs (Decidable (_ ∧ _))

def ClosedLive (p : LivePosition) : Prop := p.mode = .live ∧ p.closedAt.isSome

instance : DecidablePred ClosedLive := fun _ => inferInstanceAs (Decidable (_ ∧ _))

/-- Every live row that is closed has an acknowledged exit order for all that remained. -/
def BooksTied (s : Desk) : Prop := ∀ p ∈ s.positions, ClosedLive p → ∃ o ∈ s.acked, o.IsExitOf p

instance : DecidablePred BooksTied := fun s =>
  inferInstanceAs (Decidable (∀ p ∈ s.positions, ClosedLive p → ∃ o ∈ s.acked, o.IsExitOf p))

/-! ## The condition -/

/-- No open live row is among those that the step closes. -/
def LeavesLive (s : Desk) (op : DeskOp) : Prop :=
  ∀ p ∈ s.positions, p.mode = .live → p.closedAt = none → closes s op p = false

instance (s : Desk) (op : DeskOp) : Decidable (LeavesLive s op) :=
  inferInstanceAs (Decidable (∀ p ∈ s.positions, p.mode = .live → p.closedAt = none → closes s op p = false))

/-! ## One step -/

variable {s : Desk} {hits : LivePosition → Bool} {mark value : LivePosition → Option ℚ} {reason : String}
  {now : DateTime}

/-- There is a closed live row. -/
def HasClosedLive (positions : PositionTable) : Prop := ∃ p ∈ positions, ClosedLive p

theorem hasClosedLive_closeRows : HasClosedLive (closeRows hits mark value reason now s).positions ↔
    HasClosedLive s.positions ∨ ∃ p ∈ s.positions, p.mode = .live ∧ p.closedAt = none ∧ hits p = true := by
  unfold HasClosedLive
  constructor
  · rintro ⟨p', hp', hmode, hclosed⟩
    obtain ⟨p, hp, rfl⟩ := List.mem_map.1 hp'
    split at hmode
    next hhit => exact .inr ⟨p, hp, hmode, by simpa using hhit.2, hhit.1⟩
    next hmiss =>
      rw [if_neg hmiss] at hclosed
      exact .inl ⟨p, hp, hmode, hclosed⟩
  · rintro (⟨p, hp, hmode, hclosed⟩ | ⟨p, hp, hmode, hopen, hhit⟩)
    · refine ⟨_, List.mem_map.2 ⟨p, hp, rfl⟩, ?_⟩
      rw [if_neg]
      · exact ⟨hmode, hclosed⟩
      · rintro ⟨-, hopen⟩
        rw [Option.isNone_iff_eq_none] at hopen
        simp [hopen] at hclosed
    · refine ⟨_, List.mem_map.2 ⟨p, hp, rfl⟩, ?_⟩
      rw [if_pos ⟨hhit, by simp [hopen]⟩]
      exact ⟨hmode, rfl⟩

/-- Flushing a mark changes nothing but the mark. -/
theorem mem_recordTick {markOk : Bool} {m : ℚ} {pos : PositionTickOutcomes} {Q : LivePosition → Prop}
    (hQ : ∀ p, Q { p with lastMark := some m } ↔ Q p) :
    (∃ p ∈ (recordTick markOk m pos s).positions, Q p) ↔ ∃ p ∈ s.positions, Q p := by
  cases markOk with
  | false => rfl
  | true =>
    change (∃ p ∈ flushMark pos.positionId m s.positions, Q p) ↔ _
    simp only [flushMark, List.mem_map, exists_exists_and_eq_and]
    refine exists_congr fun p => and_congr_right fun _ => ?_
    split
    · exact hQ p
    · rfl

theorem hasClosedLive_closeFromTick {i : SweepInput} {m : ℚ} {pos : PositionTickOutcomes} {r : CloseReason} :
    HasClosedLive (closeFromTick i m pos r s).positions ↔
      HasClosedLive s.positions ∨ ∃ p ∈ s.positions, p.mode = .live ∧ p.closedAt = none
        ∧ i.closeOk pos.positionId = true ∧ p.id = pos.positionId := by
  unfold closeFromTick
  split
  next hok =>
    -- which rows are closed does not depend on what is stored for them
    change HasClosedLive (closeRows (·.id == pos.positionId) (·.lastMark) (·.lastMark) r.asDbStr i.now s).positions ↔ _
    rw [hasClosedLive_closeRows]
    simp [hok]
  next hok => simp [hok]

theorem hasClosedLive_dispatchTick {i : SweepInput} {markOk : Bool} {m : ℚ} {pos : PositionTickOutcomes} :
    HasClosedLive (dispatchTick i markOk m pos s).positions ↔
      HasClosedLive s.positions ∨ ∃ p ∈ s.positions, p.mode = .live ∧ p.closedAt = none
        ∧ (closingReason s.store m pos).isSome ∧ i.closeOk pos.positionId = true ∧ p.id = pos.positionId := by
  have hclosed : HasClosedLive (recordTick markOk m pos s).positions ↔ HasClosedLive s.positions :=
    mem_recordTick fun p => Iff.rfl
  have hstore : (recordTick markOk m pos s).store = s.store := rfl
  unfold dispatchTick
  simp only [hstore]
  cases hreason : closingReason s.store m pos with
  | none => simpa using hclosed
  | some reason =>
    refine hasClosedLive_closeFromTick.trans (or_congr hclosed ?_)
    rw [mem_recordTick fun p => Iff.rfl]
    simp

theorem hasClosedLive_opens {i : DispatchInput} {b b' : Bridge} (h : Opens i b b') :
    HasClosedLive b'.positions ↔ HasClosedLive b.positions := by
  rcases h with ⟨hpos, -⟩ | ⟨-, hpos, -⟩
  · rw [hpos]
  · rw [hpos]
    simp [HasClosedLive, PositionTable.mem_insertLive, or_and_right, exists_or, ClosedLive]

/-- **One step** leaves a closed live row exactly where there was one or it closes one. -/
theorem hasClosedLive_deskStep (s : Desk) (op : DeskOp) :
    HasClosedLive (deskStep s op).positions ↔ HasClosedLive s.positions ∨ ¬ LeavesLive s op := by
  have hiff : ¬ LeavesLive s op ↔
      ∃ p ∈ s.positions, p.mode = .live ∧ p.closedAt = none ∧ closes s op p = true := by
    simp [LeavesLive]
  rw [hiff]
  cases op with
  | enqueue id c now => simp [closes, deskStep, bridgeStep, Desk.positions]
  | claim c => simp [closes, deskStep, Desk.positions, claim_frame]
  | dispatch i =>
    simp only [closes, Bool.false_eq_true, and_false, exists_false, or_false]
    exact hasClosedLive_opens (dispatchNext_opens (withKey s.positions i) s.bridge)
  | hydrate => simp [closes, deskStep, Desk.positions]
  | price i key =>
    simp only [closes, Bool.false_eq_true, and_false, exists_false, or_false, deskStep]
    split <;> rfl
  | outcome i markOk =>
    cases hrest : s.dispatching with
    | nil => simp [closes, deskStep, hrest]
    | cons head rest =>
      obtain ⟨m, pos⟩ := head
      simp only [deskStep, hrest, closes, Bool.and_eq_true, beq_iff_eq, and_assoc]
      exact hasClosedLive_dispatchTick
  | timeStop t r =>
    simp only [deskStep, closes, Bool.and_eq_true, beq_iff_eq]
    split
    next hdue =>
      refine hasClosedLive_closeRows.trans (or_congr_right ?_)
      simp [hdue]
    next hdue => simp [hdue]
  | supersede setupId closeOk now =>
    simp only [deskStep, closes, Bool.and_eq_true, beq_iff_eq]
    split
    next hok =>
      refine hasClosedLive_closeRows.trans (or_congr_right ?_)
      simp [hok]
    next hok => simp [hok]

/-- Whatever is acknowledged is an entry. -/
def EntriesOnly (s : Desk) : Prop := ∀ o ∈ s.acked, ∃ c, o.purpose = .entry c

theorem dispatchTick_acked {i : SweepInput} {markOk : Bool} {m : ℚ} {pos : PositionTickOutcomes} :
    (dispatchTick i markOk m pos s).acked = s.acked := by
  unfold dispatchTick
  simp only
  split
  · unfold closeFromTick
    split <;> rfl
  · rfl

theorem entriesOnly_deskStep (h : EntriesOnly s) (op : DeskOp) : EntriesOnly (deskStep s op) := by
  cases op with
  | dispatch i =>
    intro o ho
    rcases List.mem_append.1 ho with ho | ho
    · exact h o ho
    · exact ackedBy_entry ho
  | price i key =>
    simp only [deskStep]
    split <;> exact h
  | outcome i markOk =>
    simp only [deskStep]
    split
    · exact h
    · unfold EntriesOnly
      rw [dispatchTick_acked]
      exact h
  | timeStop t r =>
    simp only [deskStep]
    split <;> exact h
  | supersede setupId closeOk now =>
    simp only [deskStep]
    split <;> exact h
  | _ => exact h

/-- Without an exit order the books are tied only as long as no live row is closed. -/
theorem booksTied_of_entriesOnly (h : EntriesOnly s) : BooksTied s ↔ ¬ HasClosedLive s.positions := by
  constructor
  · rintro htied ⟨p, hp, hclosed⟩
    obtain ⟨o, ho, hexit, -⟩ := htied p hp hclosed
    obtain ⟨c, hentry⟩ := h o ho
    rw [hentry] at hexit
    cases hexit
  · exact fun hnone p hp hclosed => absurd ⟨p, hp, hclosed⟩ hnone

/-! ## Every run -/

/-- **The books are tied to the broker** in every state of a run exactly when no step closes a live row. -/
theorem booksTied_iff (setups : List SetupRow) (takerBps : Risk.MarketSegment → ℚ) (ops : List DeskOp) :
    AllStates deskStep BooksTied (.start setups takerBps) ops ↔
      AllSteps deskStep LeavesLive (.start setups takerBps) ops := by
  apply allStates_iff_allSteps_of_iff (J := EntriesOnly) (K := fun _ => True)
  · exact fun s op h _ => entriesOnly_deskStep h op
  · intro s op h _
    rw [booksTied_of_entriesOnly (entriesOnly_deskStep h op), booksTied_of_entriesOnly h,
      hasClosedLive_deskStep, not_or, not_not]
  · exact fun o ho => nomatch ho
  · exact fun _ _ => trivial
  · exact fun p hp => nomatch hp

/-- A long goes live at 100 with its stop at 95. The market comes to 94, the row is closed as `sl_hit`, and the
only order the broker has seen is the entry. -/
theorem stop_leaves_position_open :
    let ops := [DeskOp.enqueue 1 (longTo110 "live") 0, .claim claimAll, .dispatch (dispatchAt 100),
      .price (marketAt 94) liveBtc, .outcome (marketAt 94) true]
    let s := run deskStep (.start [] fun _ => 5) ops
    ¬ AllStates deskStep BooksTied (.start [] fun _ => 5) ops
      ∧ s.positions.map (fun p => (p.mode, p.closeReason)) = [(.live, some "sl_hit")]
      ∧ s.acked.map (·.purpose) = [.entry 1] := by
  decide +kernel

end Qtss.Worker
