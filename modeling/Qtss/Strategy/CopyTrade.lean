import Mathlib.Tactic.Linarith
import Mathlib.Tactic.FieldSimp
import Qtss.Domain.Commission
/-
# Copying the perp aggregate (`qtss-strategy/src/copy_trade.rs`, `risk.rs`)

| here | there |
| --- | --- |
| `CopyRule`          | `qtss-domain/src/copy_trade.rs:17`; `max_slippage_bps` is read nowhere |
| `CopyTradeParams`   | copy_trade.rs:29, without the ticks and the bar's venue |
| `perpDataFreshMs`, `pickSymbol`, `applyNotionalBounds` | :187, :221, :234 |
| `clampQtyByMaxNotionalUsdt` | risk.rs:5 |
| `followerOrder`, `copyTradeTick` | the body of the two loops of `run` (:265-350); `normalize` is `trim().to_uppercase()` |

The rule's minimum is checked first and its maximum cuts afterwards; the global cap cuts last. Both cuts can take
an order that has passed the minimum below it (`followerOrder_bounded_iff`).
-/

namespace Qtss.Strategy

structure CopyRule where
  sizeMultiplier : ℚ
  maxLatencyMs : ℤ
  minNotional : Option ℚ
  maxNotional : Option ℚ
  symbolAllowlist : List String
deriving DecidableEq

structure CopyTradeParams where
  directionThreshold : ℚ
  baseOrderQty : ℚ
  defaultSymbol : String
  autoPlace : Bool
  requiresHumanApproval : Bool
  maxNotionalUsdt : ℚ

/-- `qty * mark` is cut down to the cap. -/
def clampQtyByMaxNotionalUsdt (qty mark maxNotionalUsdt : ℚ) : ℚ :=
  if mark ≤ 0 ∨ qty ≤ 0 then qty
  else if maxNotionalUsdt ≤ 0 then qty
  else
    let notional := qty * mark
    if notional ≤ maxNotionalUsdt then qty else maxNotionalUsdt / mark

/-- copy_trade.rs:187; `ageSecs` is `none` without a snapshot. -/
def perpDataFreshMs (ageSecs : Option ℤ) (maxLatencyMs : ℤ) : Bool :=
  if maxLatencyMs ≤ 0 then true
  else
    match ageSecs with
    | none => false
    | some secs => if secs ≥ 0 then !decide (min (secs * 1000) (2 ^ 63 - 1) > maxLatencyMs) else false

def pickSymbol (normalize : String → String) (rule : CopyRule) (defaultSymbol : String) : String :=
  ((rule.symbolAllowlist.map normalize).find? (· ≠ "")).getD defaultSymbol

/-- copy_trade.rs:234. -/
def applyNotionalBounds (rule : CopyRule) (qty mark : ℚ) : Option ℚ :=
  let notional := qty * mark
  if rule.minNotional.any (notional < ·) then none
  else
    match rule.maxNotional with
    | none => some qty
    | some mx =>
      if qty * mark > mx ∧ mark > 0 then
        let q := mx / mark
        if q ≤ 0 then none else some q
      else some qty

def direction (score threshold : ℚ) : Option OrderSide :=
  if score > threshold then some .buy else if score < -threshold then some .sell else none

/-- The follower's quantity (:291-298), where it is positive. -/
def followerQty (rule : CopyRule) (baseOrderQty mark maxNotionalUsdt : ℚ) : Option ℚ := do
  let qty := baseOrderQty * rule.sizeMultiplier
  let qty ← applyNotionalBounds rule qty mark
  let qty := clampQtyByMaxNotionalUsdt qty mark maxNotionalUsdt
  if qty ≤ 0 then none else some qty

/-- What a subscription with this rule sends; `mark` is the close of the last bar of a symbol. -/
def followerOrder (normalize : String → String) (p : CopyTradeParams) (score : ℚ) (ageSecs : Option ℤ)
    (mark : String → Option ℚ) (rule : CopyRule) : Option V1.OrderIntent :=
  if !perpDataFreshMs ageSecs rule.maxLatencyMs then none
  else do
    let sym := pickSymbol normalize rule p.defaultSymbol
    let mark ← mark sym
    let qty ← followerQty rule p.baseOrderQty mark p.maxNotionalUsdt
    let side ← direction score p.directionThreshold
    if p.autoPlace then
      some ⟨⟨.binance, .futures, sym⟩, side, qty, .market, p.requiresHumanApproval⟩
    else none

/-- One pass over the active subscriptions; a rule that does not parse is `none`. -/
def copyTradeTick (normalize : String → String) (p : CopyTradeParams) (halted : Bool) (score : Option ℚ)
    (ageSecs : Option ℤ) (mark : String → Option ℚ) (rules : List (Option CopyRule)) : List V1.OrderIntent :=
  if halted then []
  else
    match score with
    | none => []
    | some score => rules.filterMap (·.bind (followerOrder normalize p score ageSecs mark))

/-! ## The bounds -/

/-- The rule's bounds on the notional of an order, where they are set. -/
structure WithinBounds (rule : CopyRule) (notional : ℚ) : Prop where
  min : ∀ mn ∈ rule.minNotional, mn ≤ notional
  max : ∀ mx ∈ rule.maxNotional, notional ≤ mx

variable {normalize : String → String} {p : CopyTradeParams} {score base qty q mark cap mn mx : ℚ}
  {ageSecs : Option ℤ} {marks : String → Option ℚ} {rule : CopyRule} {intent : V1.OrderIntent}

/-- A notional under the global cap. -/
def cutToCap (cap notional : ℚ) : ℚ := if 0 < cap then min cap notional else notional

/-- The notional after the rule's maximum. -/
def cutToMax (rule : CopyRule) (notional : ℚ) : ℚ := (rule.maxNotional.map (min · notional)).getD notional

theorem clamp_notional (hmark : 0 < mark) (hqty : 0 < qty) :
    clampQtyByMaxNotionalUsdt qty mark cap * mark = cutToCap cap (qty * mark) := by
  unfold clampQtyByMaxNotionalUsdt cutToCap
  rw [if_neg (by rw [not_or, not_le, not_le]; exact ⟨hmark, hqty⟩)]
  by_cases hcap : cap ≤ 0
  · rw [if_pos hcap, if_neg (not_lt.2 hcap)]
  · rw [if_neg hcap, if_pos (not_le.1 hcap)]
    by_cases hle : qty * mark ≤ cap
    · rw [if_pos hle, min_eq_right hle]
    · rw [if_neg hle, min_eq_left (not_le.1 hle).le, div_mul_cancel₀ _ hmark.ne']

theorem cutToCap_pos {notional : ℚ} (h : 0 < notional) : 0 < cutToCap cap notional := by
  unfold cutToCap
  split
  · rename_i hcap; exact lt_min hcap h
  · exact h

theorem clamp_pos_iff (hmark : 0 < mark) : 0 < clampQtyByMaxNotionalUsdt qty mark cap ↔ 0 < qty := by
  by_cases hqty : 0 < qty
  · refine iff_of_true (pos_of_mul_pos_left ?_ hmark.le) hqty
    rw [clamp_notional hmark hqty]
    exact cutToCap_pos (mul_pos hqty hmark)
  · rw [clampQtyByMaxNotionalUsdt, if_pos (.inr (not_lt.1 hqty))]

/-- What passes the rule's bounds: the quantity itself, or the maximum where that is lower. -/
theorem applyNotionalBounds_eq_some (hmark : 0 < mark) : applyNotionalBounds rule qty mark = some q ↔
    (∀ mn ∈ rule.minNotional, mn ≤ qty * mark) ∧
      match rule.maxNotional with
      | none => q = qty
      | some mx => if mx < qty * mark then 0 < mx ∧ q = mx / mark else q = qty := by
  unfold applyNotionalBounds
  have hany : rule.minNotional.any (fun mn => decide (qty * mark < mn)) = true ↔
      ¬ ∀ mn ∈ rule.minNotional, mn ≤ qty * mark := by
    cases rule.minNotional <;> simp
  by_cases hmin : ∀ mn ∈ rule.minNotional, mn ≤ qty * mark
  · rw [if_neg (mt hany.1 (not_not.2 hmin)), and_iff_right hmin]
    cases rule.maxNotional with
    | none => simp only [Option.some_inj, eq_comm]
    | some mx =>
      by_cases hcut : mx < qty * mark
      · simp only [gt_iff_lt, hcut, hmark, and_self, if_true, div_le_iff₀ hmark, zero_mul]
        by_cases hmx : mx ≤ 0
        · simp [hmx, not_lt.2 hmx]
        · simp [hmx, not_le.1 hmx, eq_comm]
      · simp only [gt_iff_lt, hcut, false_and, if_false, Option.some_inj, eq_comm]
  · rw [if_pos (hany.2 hmin)]
    simp only [hmin, false_and, reduceCtorEq]

/-- A positive quantity passes with its notional cut to the maximum. -/
theorem applyNotionalBounds_pos (hmark : 0 < mark) :
    applyNotionalBounds rule qty mark = some q ∧ 0 < q ↔
      (∀ mn ∈ rule.minNotional, mn ≤ qty * mark) ∧ (∀ mx ∈ rule.maxNotional, 0 < mx) ∧ 0 < qty * mark
        ∧ q * mark = cutToMax rule (qty * mark) := by
  rw [applyNotionalBounds_eq_some hmark, and_assoc]
  refine and_congr_right fun _ => ?_
  unfold cutToMax
  have hscale : 0 < qty * mark ↔ 0 < qty := mul_pos_iff_of_pos_right hmark
  cases rule.maxNotional with
  | none =>
    simp only [Option.map_none, Option.getD_none, Option.mem_def, reduceCtorEq, false_implies, implies_true,
      true_and, hscale, mul_left_inj' hmark.ne']
    exact ⟨fun ⟨heq, hpos⟩ => ⟨heq ▸ hpos, heq⟩, fun ⟨hpos, heq⟩ => ⟨heq, heq ▸ hpos⟩⟩
  | some mx =>
    simp only [Option.map_some, Option.getD_some, Option.mem_def, Option.some_inj, forall_eq']
    by_cases hcut : mx < qty * mark
    · rw [if_pos hcut, min_eq_left hcut.le, eq_div_iff hmark.ne']
      constructor
      · rintro ⟨⟨hmx, heq⟩, -⟩; exact ⟨hmx, hmx.trans hcut, heq⟩
      · rintro ⟨hmx, -, heq⟩; exact ⟨⟨hmx, heq⟩, pos_of_mul_pos_left (heq ▸ hmx) hmark.le⟩
    · have hle := not_lt.1 hcut
      rw [if_neg hcut, min_eq_right hle, mul_left_inj' hmark.ne', hscale]
      constructor
      · rintro ⟨heq, hpos⟩; exact ⟨(hscale.2 (heq ▸ hpos)).trans_le hle, heq ▸ hpos, heq⟩
      · rintro ⟨-, hpos, heq⟩; exact ⟨heq, heq ▸ hpos⟩

/-- **The strategy's quantity**: a positive notional that has passed the minimum, cut to the maximum and to the
global cap. -/
theorem followerQty_eq_some (hmark : 0 < mark) : followerQty rule base mark cap = some q ↔
    (∀ mn ∈ rule.minNotional, mn ≤ base * rule.sizeMultiplier * mark)
      ∧ (∀ mx ∈ rule.maxNotional, 0 < mx) ∧ 0 < base * rule.sizeMultiplier * mark
      ∧ q * mark = cutToCap cap (cutToMax rule (base * rule.sizeMultiplier * mark)) := by
  simp only [followerQty, Option.bind_eq_bind, Option.bind_eq_some_iff, Option.ite_none_left_eq_some, not_le,
    clamp_pos_iff hmark, Option.some_inj]
  constructor
  · rintro ⟨q', happ, hpos, rfl⟩
    obtain ⟨hmin, hmax, hn, hq'⟩ := (applyNotionalBounds_pos hmark).1 ⟨happ, hpos⟩
    exact ⟨hmin, hmax, hn, by rw [clamp_notional hmark hpos, hq']⟩
  · rintro ⟨hmin, hmax, hn, hq⟩
    have hq' : cutToMax rule (base * rule.sizeMultiplier * mark) / mark * mark =
        cutToMax rule (base * rule.sizeMultiplier * mark) := div_mul_cancel₀ _ hmark.ne'
    obtain ⟨happ, hpos⟩ := (applyNotionalBounds_pos hmark).2 ⟨hmin, hmax, hn, hq'⟩
    refine ⟨_, happ, hpos, mul_right_cancel₀ hmark.ne' ?_⟩
    rw [clamp_notional hmark hpos, hq', hq]

/-! ## What the strategy respects -/

/-- Every order the strategy sends at this base quantity, mark and global cap is within the rule's bounds. -/
def StrategyBounded (normalize : String → String) (rule : CopyRule) (base mark cap : ℚ) : Prop :=
  ∀ (p : CopyTradeParams) score ageSecs marks intent, p.baseOrderQty = base → p.maxNotionalUsdt = cap →
    marks (pickSymbol normalize rule p.defaultSymbol) = some mark →
    followerOrder normalize p score ageSecs marks rule = some intent → WithinBounds rule (intent.quantity * mark)

/-- Whatever passes the minimum, neither cut can take below it. -/
def CutsAboveMin (rule : CopyRule) (base mark cap : ℚ) : Prop :=
  ∀ mn ∈ rule.minNotional, mn ≤ base * rule.sizeMultiplier * mark → 0 < base * rule.sizeMultiplier * mark →
    (∀ mx ∈ rule.maxNotional, 0 < mx) → (∀ mx ∈ rule.maxNotional, mn ≤ mx) ∧ (0 < cap → mn ≤ cap)

theorem quantity_of_followerOrder (hm : marks (pickSymbol normalize rule p.defaultSymbol) = some mark)
    (h : followerOrder normalize p score ageSecs marks rule = some intent) :
    followerQty rule p.baseOrderQty mark p.maxNotionalUsdt = some intent.quantity := by
  unfold followerOrder at h
  split at h
  · cases h
  · simp only [hm, Option.bind_eq_bind, Option.bind_some, Option.bind_eq_some_iff,
      Option.ite_none_right_eq_some, Option.some_inj] at h
    obtain ⟨qty, hqty, side, -, -, rfl⟩ := h
    exact hqty

/-- Any quantity the sizing gives is sent on a strong enough score. -/
theorem followerOrder_of_qty (normalize : String → String) (h : followerQty rule base mark cap = some q) :
    ∃ intent, intent.quantity = q
      ∧ followerOrder normalize ⟨0, base, "", true, false, cap⟩ 1 (some 0) (fun _ => some mark) rule = some intent := by
  refine ⟨⟨⟨.binance, .futures, pickSymbol normalize rule ""⟩, .buy, q, .market, false⟩, rfl, ?_⟩
  have hfresh : perpDataFreshMs (some 0) rule.maxLatencyMs = true := by
    unfold perpDataFreshMs
    split
    · rfl
    · simp; omega
  simp [followerOrder, hfresh, h, direction]

theorem cutToMax_le {notional : ℚ} (hmx : mx ∈ rule.maxNotional) : cutToMax rule notional ≤ mx := by
  rw [cutToMax, Option.mem_def.1 hmx]
  exact min_le_left _ _

theorem cutToCap_le {notional : ℚ} : cutToCap cap notional ≤ notional := by
  unfold cutToCap
  split
  · exact min_le_right _ _
  · rfl

theorem le_cutToMax_iff {notional : ℚ} (h : mn ≤ notional) :
    mn ≤ cutToMax rule notional ↔ ∀ mx ∈ rule.maxNotional, mn ≤ mx := by
  unfold cutToMax
  cases rule.maxNotional <;> simp [h]

theorem le_cutToCap_iff {notional : ℚ} : mn ≤ cutToCap cap notional ↔ mn ≤ notional ∧ (0 < cap → mn ≤ cap) := by
  unfold cutToCap
  split <;> simp [*, and_comm]

/-- **The strategy path** keeps to the rule's bounds exactly when neither the rule's maximum nor the global cap
is below the minimum of an order that they may cut. -/
theorem strategyBounded_iff (hmark : 0 < mark) :
    StrategyBounded normalize rule base mark cap ↔ CutsAboveMin rule base mark cap := by
  constructor
  · intro h mn hmn hmin hn hmax
    have hmins : ∀ mn ∈ rule.minNotional, mn ≤ base * rule.sizeMultiplier * mark := by
      intro mn' hmn'
      rw [Option.mem_def] at hmn hmn'
      rwa [Option.some.inj (hmn'.symm.trans hmn)]
    have hqty : followerQty rule base mark cap =
        some (cutToCap cap (cutToMax rule (base * rule.sizeMultiplier * mark)) / mark) :=
      (followerQty_eq_some hmark).2 ⟨hmins, hmax, hn, div_mul_cancel₀ _ hmark.ne'⟩
    obtain ⟨intent, hq, hsent⟩ := followerOrder_of_qty normalize hqty
    have hbounds := (h _ _ _ _ intent rfl rfl rfl hsent).min mn hmn
    rw [hq, div_mul_cancel₀ _ hmark.ne', le_cutToCap_iff, le_cutToMax_iff hmin] at hbounds
    exact hbounds
  · rintro h p score ageSecs marks intent rfl rfl hm hsent
    obtain ⟨hmin, hmax, hn, hq⟩ := (followerQty_eq_some hmark).1 (quantity_of_followerOrder hm hsent)
    rw [hq]
    refine ⟨fun mn hmn => ?_, fun mx hmx => cutToCap_le.trans (cutToMax_le hmx)⟩
    have hcuts := h mn hmn (hmin mn hmn) hn hmax
    exact le_cutToCap_iff.2 ⟨(le_cutToMax_iff (hmin mn hmn)).2 hcuts.1, hcuts.2⟩

end Qtss.Strategy
