import Mathlib.Algebra.Order.Field.Basic
import Mathlib.Algebra.Order.Ring.Abs
import Mathlib.Tactic.FieldSimp
import Mathlib.Tactic.Linarith
import Mathlib.Tactic.Ring
/-!
# Books at average cost

A `Book` is a signed quantity together with what it was entered for. A fill `(d, p)` of `d` units
(negative: sold) at price `p` adds to the book, reduces it at its average entry, or closes it and
opens the rest on the other side at `p` (`fill_add`, `fill_reduce`, `fill_flip`).

The one law of such a book is `fill_flow`: whatever a fill does, what the book realises and what it
is carried at differ by the cash that changed hands.
-/
namespace AverageCost

variable {K : Type*} [Field K] [LinearOrder K]

@[ext] structure Book (K : Type*) where
  /-- The signed quantity held. -/
  net : K
  /-- What it was entered for, with its sign. -/
  cost : K
  realised : K

namespace Book

def flat : Book K := ⟨0, 0, 0⟩

/-- The average entry (zero when nothing is held). -/
def avg (b : Book K) : K := b.cost / b.net

/-- One fill of `d` units at `p`. -/
def fill (b : Book K) (d p : K) : Book K :=
  if 0 ≤ b.net * d then ⟨b.net + d, b.cost + d * p, b.realised⟩
  else if |d| ≤ |b.net| then ⟨b.net + d, b.cost + d * b.avg, b.realised - d * (p - b.avg)⟩
  else ⟨b.net + d, (b.net + d) * p, b.realised + b.net * (p - b.avg)⟩

/-- Nothing held costs nothing. -/
def Ok (b : Book K) : Prop := b.net = 0 → b.cost = 0

variable {b : Book K} {d p : K}

/-! ## The three kinds of fill -/

theorem fill_add (h : 0 ≤ b.net * d) :
    b.fill d p = ⟨b.net + d, b.cost + d * p, b.realised⟩ := if_pos h

theorem fill_reduce (h : b.net * d < 0) (hle : |d| ≤ |b.net|) :
    b.fill d p = ⟨b.net + d, b.cost + d * b.avg, b.realised - d * (p - b.avg)⟩ := by
  rw [fill, if_neg h.not_ge, if_pos hle]

theorem fill_flip (h : b.net * d < 0) (hlt : |b.net| < |d|) :
    b.fill d p = ⟨b.net + d, (b.net + d) * p, b.realised + b.net * (p - b.avg)⟩ := by
  rw [fill, if_neg h.not_ge, if_neg hlt.not_ge]

/-- However it is booked, a fill moves the quantity by `d`. -/
theorem fill_net (b : Book K) (d p : K) : (b.fill d p).net = b.net + d := by
  unfold fill
  split
  · rfl
  · split <;> rfl

omit [LinearOrder K] in
theorem net_mul_avg (h : b.Ok) : b.net * b.avg = b.cost := by
  by_cases hn : b.net = 0
  · simp [hn, h hn]
  · rw [avg, mul_div_cancel₀ _ hn]

/-- **The law of the book**: realised less carried moves by the cash of the fill. -/
theorem fill_flow (h : b.Ok) (d p : K) :
    (b.fill d p).realised - (b.fill d p).cost = b.realised - b.cost - d * p := by
  have hcost := net_mul_avg h
  unfold fill
  split
  · ring
  · split
    · ring
    · rw [← hcost]
      ring

/-- One fill `(d, p)`, as a step of a run. -/
def step (b : Book K) (m : K × K) : Book K := b.fill m.1 m.2

end Book

end AverageCost
