import Mathlib.Tactic.Linarith
import Mathlib.Tactic.Ring
import Mathlib.Tactic.FieldSimp
import Mathlib.Tactic.NormNum
import Mathlib.Algebra.Order.Field.Rat
import Qtss.Domain
import Qtss.Lib.Runs
/-
# Position bookkeeping (`qtss-portfolio/src/position.rs`)

| here | there |
| --- | --- |
| `Position`             | `Position` (position.rs:16) |
| `Position.applyFill`   | `Position::apply_fill` (:50) — the new position and the returned realised pnl |
| `Position.mark`        | `Position::mark` (:112) |
| `signed`, `sameOrZero` | `signed`, `same_or_zero` (:126, :134) |

`apply_fill` routes on the signs of the net quantity *before* and *after* the fill
(`same_or_zero(current_signed, new_signed)`), not on the side of the fill. So the branch written
for additions also takes every partial reduction, and the one for flat results every exact close;
only a flip reaches the branch that realises pnl. `book_open`, `book_close`, `book_extend` and
`book_flip` say what each of the four outcomes does to the average entry and the realised pnl, and
`book_net` that all of them move the net quantity by the fill; everything else in the crate follows
from these.
-/

namespace Qtss.Portfolio

structure Position where
  symbol : String
  /-- Net side, `none` when flat. -/
  side : Option Side
  quantity : ℚ
  avgEntry : ℚ
  realisedPnl : ℚ
  unrealisedPnl : ℚ
  lastMark : ℚ
deriving DecidableEq

def Position.flat (symbol : String) : Position := ⟨symbol, none, 0, 0, 0, 0, 0⟩

def Position.isFlat (p : Position) : Bool := p.side.isNone || p.quantity == 0

def signed : Side → ℚ → ℚ
  | .long, qty => qty
  | .short, qty => -qty

/-- "True when both signs agree (or one of them is zero)." -/
def sameOrZero (a b : ℚ) : Bool :=
  if a = 0 ∨ b = 0 then true else decide (a > 0) == decide (b > 0)

/-- `current_signed` (:55): the net quantity with its sign. -/
def Position.net (p : Position) : ℚ := (p.side.map fun s => signed s p.quantity).getD 0

/-- position.rs:112. The `unwrap()` sees no `None`: `is_flat` has returned by then. -/
def Position.mark (p : Position) (mark : ℚ) : Position :=
  let p := { p with lastMark := mark }
  if p.isFlat || mark == 0 then { p with unrealisedPnl := 0 }
  else match p.side with
    | some .long => { p with unrealisedPnl := (mark - p.avgEntry) * p.quantity }
    | some .short => { p with unrealisedPnl := (p.avgEntry - mark) * p.quantity }
    | none => p

/-- `pnl_per_unit` (:85). -/
def Position.pnlPerUnit (p : Position) (price : ℚ) : ℚ :=
  match p.side with
  | some .long => price - p.avgEntry
  | some .short => p.avgEntry - price
  | none => 0

/-- The two branches of `apply_fill` (:60-104): the position before `realised_pnl` and the mark
are brought up to date, and the pnl the branch realises besides the fee. -/
def Position.book (p : Position) (side : Side) (qty price : ℚ) : Position × ℚ :=
  let currentSigned := p.net
  let newSigned := currentSigned + signed side qty
  if sameOrZero currentSigned newSigned then
    let absOld := |currentSigned|
    let absNew := |newSigned|
    if absNew = 0 then ({ p with side := none, quantity := 0, avgEntry := 0 }, 0)
    else if absOld = 0 then ({ p with side := some side, quantity := qty, avgEntry := price }, 0)
    else
      ({ p with avgEntry := (p.avgEntry * absOld + price * qty) / absNew, quantity := absNew }, 0)
  else
    let closeQty := min qty p.quantity
    let leftover := qty - closeQty
    let reduced := { p with quantity := p.quantity - closeQty }
    let reduced := if reduced.quantity = 0 then { reduced with side := none, avgEntry := 0 }
      else reduced
    -- flip: the residual opens on the new side at this price
    let flipped := if leftover > 0 then
        { reduced with side := some side, quantity := leftover, avgEntry := price }
      else reduced
    (flipped, p.pnlPerUnit price * closeQty)

/-- position.rs:50. -/
def Position.applyFill (p : Position) (side : Side) (qty price fee : ℚ) : Position × ℚ :=
  let (q, pnl) := p.book side qty price
  let realised := -fee + pnl
  (({ q with realisedPnl := q.realisedPnl + realised } : Position).mark q.lastMark, realised)

/-! ## Well-formed positions -/

/-- "Net quantity (always >= 0). When `side` is `None`, this is `0`": and positive otherwise. -/
def Position.Ok (p : Position) : Prop := if p.side = none then p.quantity = 0 else 0 < p.quantity

instance (p : Position) : Decidable p.Ok := by unfold Position.Ok; infer_instance

theorem ok_flat (symbol : String) : (Position.flat symbol).Ok := by simp [Position.Ok, Position.flat]

@[simp] theorem net_flat (symbol : String) : (Position.flat symbol).net = 0 := rfl

@[simp] theorem signed_abs {side : Side} {qty : ℚ} (h : 0 < qty) : |signed side qty| = qty := by
  cases side <;> simp [signed, abs_of_pos h]

theorem Position.net_of_side {p : Position} {s : Side} (h : p.side = some s) :
    p.net = signed s p.quantity := by simp [Position.net, h]

theorem signed_ne_zero (side : Side) {qty : ℚ} (h : 0 < qty) : signed side qty ≠ 0 := by
  cases side <;> simp [signed, h.ne']

/-- A well-formed position is flat, long or short, with the sign of `net` to match. -/
theorem Position.Ok.cases {p : Position} (h : p.Ok) :
    (p.side = none ∧ p.quantity = 0 ∧ p.net = 0) ∨
    (∃ s, p.side = some s ∧ 0 < p.quantity ∧ p.net = signed s p.quantity) := by
  unfold Position.Ok at h
  cases hs : p.side with
  | none => simp [hs] at h; simp [h, Position.net, hs]
  | some s => simp [hs] at h; simp [h, Position.net, hs]

theorem Position.Ok.abs_net {p : Position} (h : p.Ok) : |p.net| = p.quantity := by
  rcases h.cases with ⟨-, hq, hn⟩ | ⟨s, -, hq, hn⟩
  · simp [hq, hn]
  · rw [hn, signed_abs hq]

/-! ## `mark` -/

/-- What `mark` writes into `unrealised_pnl`. -/
def Position.markPnl (p : Position) (mark : ℚ) : ℚ :=
  if mark = 0 then 0 else p.net * (mark - p.avgEntry)

theorem mark_eq {p : Position} (h : p.Ok) (mark : ℚ) :
    p.mark mark = { p with lastMark := mark, unrealisedPnl := p.markPnl mark } := by
  rcases h.cases with ⟨hs, hq, hn⟩ | ⟨s, hs, hq, hn⟩
  · simp [Position.mark, Position.isFlat, hs, Position.markPnl, hn]
  · by_cases hm : mark = 0
    · simp [Position.mark, hm, Position.markPnl]
    · cases s <;>
        simp [Position.mark, Position.isFlat, Position.markPnl, hs, hq.ne', hm, hn, signed] <;> ring

/-! ## The four routes of `apply_fill` -/

theorem sameOrZero_iff (a b : ℚ) : sameOrZero a b = true ↔ 0 ≤ a * b := by
  unfold sameOrZero
  by_cases hz : a = 0 ∨ b = 0
  · rcases hz with rfl | rfl <;> simp
  · obtain ⟨ha, hb⟩ := not_or.1 hz
    rw [if_neg hz]
    rcases lt_or_gt_of_ne ha with ha | ha <;> rcases lt_or_gt_of_ne hb with hb | hb
    · simp [ha.not_gt, hb.not_gt, (mul_pos_of_neg_of_neg ha hb).le]
    · simp [ha.not_gt, hb, ha]
    · simp [ha, hb.not_gt, hb]
    · simp [ha, hb, (mul_pos ha hb).le]

/-- The net quantities before and after a fill fall into exactly one of these. -/
theorem routes (n d : ℚ) :
    n = 0 ∨ (n ≠ 0 ∧ n + d = 0) ∨ 0 < n * (n + d) ∨ n * (n + d) < 0 := by
  by_cases hn : n = 0
  · exact .inl hn
  · by_cases hd : n + d = 0
    · exact .inr (.inl ⟨hn, hd⟩)
    · rcases lt_or_gt_of_ne (mul_ne_zero hn hd) with h | h
      · exact .inr (.inr (.inr h))
      · exact .inr (.inr (.inl h))

section routes
variable {p : Position} {side : Side} {qty price : ℚ}

/-- Flat before: the fill opens at its price. -/
theorem book_open (hq : 0 < qty) (hn : p.net = 0) :
    p.book side qty price = ({ p with side := some side, quantity := qty, avgEntry := price }, 0) := by
  have hd := signed_ne_zero side hq
  simp [Position.book, sameOrZero, hn, hd]

/-- Flat after: the position is dropped, nothing is realised. -/
theorem book_close (hd : p.net + signed side qty = 0) :
    p.book side qty price = ({ p with side := none, quantity := 0, avgEntry := 0 }, 0) := by
  simp [Position.book, sameOrZero, hd]

/-- Same sign before and after, an addition or a partial reduction alike: the fill is averaged in. -/
theorem book_extend (hs : 0 < p.net * (p.net + signed side qty)) :
    p.book side qty price =
      ({ p with avgEntry := (p.avgEntry * |p.net| + price * qty) / |p.net + signed side qty|,
                quantity := |p.net + signed side qty| }, 0) := by
  have hn : p.net ≠ 0 := left_ne_zero_of_mul hs.ne'
  have hd : p.net + signed side qty ≠ 0 := right_ne_zero_of_mul hs.ne'
  have hr : sameOrZero p.net (p.net + signed side qty) = true := (sameOrZero_iff _ _).2 hs.le
  simp [Position.book, hr, hn, hd]

/-- Opposite signs: the old position is closed at the fill price and the rest opens there. -/
theorem book_flip (h : p.Ok) (hq : 0 < qty) (hs : p.net * (p.net + signed side qty) < 0) :
    p.book side qty price =
      ({ p with side := some side, quantity := |p.net + signed side qty|, avgEntry := price },
        p.net * (price - p.avgEntry)) := by
  have hr : sameOrZero p.net (p.net + signed side qty) = false :=
    Bool.eq_false_iff.2 fun hr => absurd ((sameOrZero_iff _ _).1 hr) (not_le.2 hs)
  rcases h.cases with ⟨-, -, hn⟩ | ⟨s, hps, hpq, hn⟩
  · simp [hn] at hs
  · -- the fill is on the other side and larger than the position
    have hlt : p.quantity < qty ∧ |p.net + signed side qty| = qty - p.quantity ∧
        p.pnlPerUnit price * p.quantity = p.net * (price - p.avgEntry) := by
      rw [hn] at hs ⊢
      cases s <;> cases side <;> simp only [signed, Position.pnlPerUnit, hps] at hs ⊢
      · nlinarith
      · have hlt : p.quantity < qty := by nlinarith
        exact ⟨hlt, by rw [abs_of_neg (by linarith)]; ring, by ring⟩
      · have hlt : p.quantity < qty := by nlinarith
        exact ⟨hlt, by rw [abs_of_pos (by linarith)]; ring, by ring⟩
      · nlinarith
    obtain ⟨hlt, habs, hpnl⟩ := hlt
    have hleft : 0 < qty - p.quantity := sub_pos.2 hlt
    simp [Position.book, hr, min_eq_right hlt.le, hleft, habs, hpnl]

/-- Whatever the route, the net quantity moves by the signed fill and the position stays
well-formed. -/
theorem book_net (h : p.Ok) (hq : 0 < qty) (side : Side) (price : ℚ) :
    (p.book side qty price).1.Ok ∧
      (p.book side qty price).1.net = p.net + signed side qty := by
  rcases routes p.net (signed side qty) with hn | ⟨-, hd⟩ | hs | hs
  · rw [book_open hq hn, hn, zero_add]
    exact ⟨by simp [Position.Ok, hq], by simp [Position.net]⟩
  · rw [book_close hd, hd]
    exact ⟨by simp [Position.Ok], rfl⟩
  · rw [book_extend hs]
    rcases h.cases with ⟨-, -, hn⟩ | ⟨s, hps, hpq, hn⟩
    · simp [hn] at hs
    · have hd : p.net + signed side qty ≠ 0 := right_ne_zero_of_mul hs.ne'
      refine ⟨by simp [Position.Ok, hps, hd], ?_⟩
      -- the side is kept, and with it the sign of the net quantity
      rw [hn] at hs ⊢
      rw [Position.net_of_side (by exact hps : _ = some s)]
      cases s <;> simp only [signed] at hs ⊢
      · exact abs_of_pos ((pos_iff_pos_of_mul_pos hs).1 hpq)
      · rw [abs_of_neg (neg_of_mul_pos_right hs (by linarith)), neg_neg]
  · rw [book_flip h hq hs]
    have hd : p.net + signed side qty ≠ 0 := right_ne_zero_of_mul hs.ne
    refine ⟨by simp [Position.Ok, hd], ?_⟩
    -- the new net quantity has the sign of the fill, since the old one does not
    rw [Position.net_of_side (rfl : _ = some side)]
    cases side <;> simp only [signed] at hs hd ⊢
    · refine abs_of_pos (lt_of_le_of_ne (not_lt.1 fun hneg => ?_) hd.symm)
      exact absurd (mul_pos_of_neg_of_neg (by linarith : p.net < 0) hneg) (not_lt.2 hs.le)
    · rw [abs_of_neg (lt_of_le_of_ne (not_lt.1 fun hpos => ?_) hd), neg_neg]
      exact absurd (mul_pos (by linarith : 0 < p.net) hpos) (not_lt.2 hs.le)

/-- `book` leaves the rest of the position alone. -/
theorem book_frame (h : p.Ok) (hq : 0 < qty) (side : Side) (price : ℚ) :
    (p.book side qty price).1.symbol = p.symbol ∧
      (p.book side qty price).1.realisedPnl = p.realisedPnl ∧
      (p.book side qty price).1.lastMark = p.lastMark := by
  rcases routes p.net (signed side qty) with hn | ⟨-, hd⟩ | hs | hs
  · simp [book_open hq hn]
  · simp [book_close hd]
  · simp [book_extend hs]
  · simp [book_flip h hq hs]

/-- Only a flip realises pnl. -/
theorem book_pnl (h : p.Ok) (hq : 0 < qty) :
    (p.book side qty price).2 =
      if p.net * (p.net + signed side qty) < 0 then p.net * (price - p.avgEntry) else 0 := by
  rcases routes p.net (signed side qty) with hn | ⟨-, hd⟩ | hs | hs
  · simp [book_open hq hn, hn]
  · simp [book_close hd, hd]
  · simp [book_extend hs, hs.not_gt]
  · simp [book_flip h hq hs, hs]

/-- **`apply_fill`**: the booked position, its realised pnl brought up to date and marked again at
the last mark. -/
theorem applyFill_eq {fee : ℚ} (h : p.Ok) (hq : 0 < qty) :
    p.applyFill side qty price fee =
      let q := (p.book side qty price).1
      let realised := -fee + (p.book side qty price).2
      ({ q with realisedPnl := p.realisedPnl + realised, unrealisedPnl := q.markPnl p.lastMark },
        realised) := by
  obtain ⟨-, hr, hl⟩ := book_frame h hq side price
  have hok := (book_net h hq side price).1
  generalize hb : p.book side qty price = b at hr hl hok
  obtain ⟨q, pnl⟩ := b
  have hok' : ({ q with realisedPnl := q.realisedPnl + (-fee + pnl) } : Position).Ok := hok
  simp only [Position.applyFill, hb, mark_eq hok', Prod.mk.injEq, and_true]
  simp only at hr hl
  rw [← hr, ← hl]
  rfl

section applyFill
variable {fee : ℚ}

theorem applyFill_snd : (p.applyFill side qty price fee).2 = -fee + (p.book side qty price).2 := rfl

theorem applyFill_ok (h : p.Ok) (hq : 0 < qty) : (p.applyFill side qty price fee).1.Ok := by
  rw [applyFill_eq h hq]; exact (book_net h hq side price).1

theorem applyFill_net (h : p.Ok) (hq : 0 < qty) :
    (p.applyFill side qty price fee).1.net = p.net + signed side qty := by
  rw [applyFill_eq h hq]; exact (book_net h hq side price).2

theorem applyFill_avgEntry (h : p.Ok) (hq : 0 < qty) :
    (p.applyFill side qty price fee).1.avgEntry = (p.book side qty price).1.avgEntry := by
  rw [applyFill_eq h hq]

theorem applyFill_realisedPnl (h : p.Ok) (hq : 0 < qty) :
    (p.applyFill side qty price fee).1.realisedPnl =
      p.realisedPnl + (p.applyFill side qty price fee).2 := by
  rw [applyFill_eq h hq]

theorem applyFill_lastMark (h : p.Ok) (hq : 0 < qty) :
    (p.applyFill side qty price fee).1.lastMark = p.lastMark := by
  rw [applyFill_eq h hq]; exact (book_frame h hq side price).2.2

theorem applyFill_unrealisedPnl (h : p.Ok) (hq : 0 < qty) :
    (p.applyFill side qty price fee).1.unrealisedPnl =
      (p.applyFill side qty price fee).1.markPnl p.lastMark := by
  rw [applyFill_eq h hq]; rfl

end applyFill

end routes

end Qtss.Portfolio
