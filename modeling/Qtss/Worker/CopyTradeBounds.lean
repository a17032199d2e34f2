import Qtss.Worker.CopyTradeQueue
/-
# The notional bounds of a copy rule on both paths (`copy_trade.rs`, `copy_trade_queue.rs`)

The two paths size an order by the same rule. The strategy checks the minimum and cuts to the maximum; the queue
multiplies and sends, and reads neither bound.

| here | there |
| --- | --- |
| `QueueBounded`, `queueBounded_iff` | the leader-fill queue, from `enqueue_from_fills` to `place` |
| `copy_bounds_iff` | both paths |
-/

namespace Qtss.Worker
open Storage Strategy

variable {normalize : String → String} {rule : CopyRule} {leaderQty base mark cap : ℚ}

/-- Every order the queue sends for a fill of this quantity is within the rule's bounds at this mark. -/
def QueueBounded (rule : CopyRule) (leaderQty mark : ℚ) : Prop :=
  ∀ (leaderIntent followerIntent' intent : V1.OrderIntent) (human : Bool) (env : ProcessEnv),
    leaderIntent.quantity = leaderQty → followerIntent human rule leaderIntent = some followerIntent' →
    (disposition env (.intent followerIntent')).placed = some intent →
    WithinBounds rule (intent.quantity * mark)

/-- What is placed for a job is the intent of its payload. -/
theorem disposition_placed {env : ProcessEnv} {payload : Payload} {intent : V1.OrderIntent}
    (h : (disposition env payload).placed = some intent) : payload = .intent intent := by
  unfold disposition at h
  split at h
  · cases h
  · cases h
  · rename_i i
    have hi : some i = some intent := by
      (repeat' split at h) <;> first | exact h | cases h
    rw [Option.some.inj hi]

theorem quantity_of_followerIntent {human : Bool} {leaderIntent intent : V1.OrderIntent}
    (h : followerIntent human rule leaderIntent = some intent) :
    0 < leaderIntent.quantity * rule.sizeMultiplier
      ∧ intent.quantity = leaderIntent.quantity * rule.sizeMultiplier := by
  unfold followerIntent at h
  rw [Option.ite_none_left_eq_some, not_le] at h
  obtain ⟨hpos, hintent⟩ := h
  rw [← Option.some.inj hintent]
  exact ⟨hpos, rfl⟩

/-- **The queue path** keeps to the bounds exactly when the multiplied fill does so by itself. -/
theorem queueBounded_iff : QueueBounded rule leaderQty mark ↔
    (0 < leaderQty * rule.sizeMultiplier → WithinBounds rule (leaderQty * rule.sizeMultiplier * mark)) := by
  constructor
  · intro h hpos
    let leader : V1.OrderIntent := ⟨⟨.binance, .futures, "BTCUSDT"⟩, .buy, leaderQty, .market, false⟩
    have hsent : followerIntent false rule leader =
        some { leader with quantity := leaderQty * rule.sizeMultiplier } := if_neg (not_le.2 hpos)
    exact h leader _ _ false ⟨true, true, false, .ok 0⟩ rfl hsent rfl
  · rintro h leader follower intent human env rfl hfollower hplaced
    obtain rfl := Payload.intent.inj (disposition_placed hplaced)
    obtain ⟨hpos, hqty⟩ := quantity_of_followerIntent hfollower
    rw [hqty]
    exact h hpos

/-- Both paths keep to the rule's bounds. -/
structure CopyBounded (normalize : String → String) (rule : CopyRule) (leaderQty base mark cap : ℚ) : Prop where
  strategy : StrategyBounded normalize rule base mark cap
  queue : QueueBounded rule leaderQty mark

/-- **Both paths**: every follower order is within the rule's bounds exactly when neither cut of the strategy
falls below a minimum that was passed, and the multiplied fill is within the bounds by itself. -/
theorem copy_bounds_iff (hmark : 0 < mark) :
    CopyBounded normalize rule leaderQty base mark cap ↔ CutsAboveMin rule base mark cap
      ∧ (0 < leaderQty * rule.sizeMultiplier →
        WithinBounds rule (leaderQty * rule.sizeMultiplier * mark)) := by
  constructor
  · rintro ⟨hstrategy, hqueue⟩
    exact ⟨(strategyBounded_iff hmark).1 hstrategy, queueBounded_iff.1 hqueue⟩
  · rintro ⟨hcuts, hfill⟩
    exact ⟨(strategyBounded_iff hmark).2 hcuts, queueBounded_iff.2 hfill⟩

/-- Half the leader's size, between 50 and 1000. -/
def halfSize : CopyRule := ⟨1 / 2, 0, some 50, some 1000, []⟩

theorem copy_bounds_halfSize : CopyBounded id halfSize (1 / 100) (1 / 50) 20000 10000 :=
  (copy_bounds_iff (by norm_num)).2 (by
    refine ⟨?_, fun _ => ⟨?_, ?_⟩⟩ <;> simp [CutsAboveMin, halfSize] <;> norm_num)

/-- A fill of one bitcoin at 20000 is copied at 10000, ten times the maximum; under a global cap of 20 the strategy
sends less than the minimum. -/
theorem copy_bounds_broken :
    ¬ QueueBounded halfSize 1 20000 ∧ ¬ StrategyBounded id halfSize (1 / 50) 20000 20 := by
  constructor
  · rw [queueBounded_iff]
    intro h
    have := (h (by simp [halfSize])).max 1000 rfl
    norm_num [halfSize] at this
  · rw [strategyBounded_iff (by norm_num)]
    intro h
    have := (h 50 rfl (by norm_num [halfSize]) (by norm_num [halfSize]) (by simp [halfSize])).2 (by norm_num)
    norm_num at this

end Qtss.Worker
