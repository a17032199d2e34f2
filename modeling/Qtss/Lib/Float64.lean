import Mathlib.Algebra.Order.Field.Rat
import Mathlib.Data.Rat.Floor
import Mathlib.Order.WithBot
/-
# Double precision floats over the rationals

`F64` is binary64 of IEEE 754 with its finite values as exact rationals: every operation rounds the exact result to
the nearest double, ties to even, and overflows to an infinity. The sign of zero is not kept, so a quotient by zero
has the sign of its numerator.

`lt` is false on NaN, and on the other values it is the order of `rank` (`lt_iff`): what a comparison sort needs.
-/

inductive F64 where
  | nan | negInf | posInf
  | fin (q : ℚ)
deriving DecidableEq, Repr

namespace F64

/-! ## Rounding -/

def pow2 : ℤ → ℚ
  | .ofNat n => (2 ^ n : ℕ)
  | .negSucc n => 1 / (2 ^ (n + 1) : ℕ)

/-- The exponent `e` with `2 ^ e ≤ |q| < 2 ^ (e + 1)`. -/
def exponent (q : ℚ) : ℤ :=
  let k : ℤ := q.num.natAbs.log2 - q.den.log2
  if |q| < pow2 k then k - 1 else k

def roundHalfEven (x : ℚ) : ℤ :=
  let f := ⌊x⌋
  if x - f < 1 / 2 then f
  else if 1 / 2 < x - f then f + 1
  else if f % 2 = 0 then f else f + 1

/-- 53 bits, down to the subnormals. -/
def round (q : ℚ) : F64 :=
  if q = 0 then .fin 0
  else
    let ulp := pow2 (max (exponent q - 52) (-1074))
    let v := roundHalfEven (q / ulp) * ulp
    if pow2 1024 ≤ v then .posInf else if v ≤ -pow2 1024 then .negInf else .fin v

/-! ## Arithmetic -/

def neg : F64 → F64
  | .nan => .nan
  | .negInf => .posInf
  | .posInf => .negInf
  | .fin q => .fin (-q)

def add : F64 → F64 → F64
  | .fin a, .fin b => round (a + b)
  | .nan, _ => .nan
  | _, .nan => .nan
  | .posInf, .negInf => .nan
  | .negInf, .posInf => .nan
  | .fin _, y => y
  | x, _ => x

def sub (x y : F64) : F64 := add x (neg y)

/-- The infinity with the sign of `q`, for `q ≠ 0`. -/
def infOf (q : ℚ) : F64 := if 0 < q then .posInf else .negInf

def mul : F64 → F64 → F64
  | .fin a, .fin b => round (a * b)
  | .nan, _ => .nan
  | _, .nan => .nan
  | .fin a, .posInf => if a = 0 then .nan else infOf a
  | .fin a, .negInf => if a = 0 then .nan else infOf (-a)
  | .posInf, .fin b => if b = 0 then .nan else infOf b
  | .negInf, .fin b => if b = 0 then .nan else infOf (-b)
  | .posInf, y => y
  | .negInf, y => neg y

def div : F64 → F64 → F64
  | .fin a, .fin b => if b ≠ 0 then round (a / b) else if a = 0 then .nan else infOf a
  | .nan, _ => .nan
  | _, .nan => .nan
  | .fin _, _ => .fin 0
  | .posInf, .fin b => if 0 ≤ b then .posInf else .negInf
  | .negInf, .fin b => if 0 ≤ b then .negInf else .posInf
  | _, _ => .nan

/-! ## Order -/

def isNan : F64 → Bool
  | .nan => true
  | _ => false

def isFinite : F64 → Bool
  | .fin _ => true
  | _ => false

def lt : F64 → F64 → Bool
  | .fin a, .fin b => a < b
  | .negInf, .fin _ => true
  | .negInf, .posInf => true
  | .fin _, .posInf => true
  | _, _ => false

def le (x y : F64) : Bool := !x.isNan && !y.isNan && !lt y x

/-- `None` where one of them is NaN. -/
def partialCmp (x y : F64) : Option Ordering :=
  if x.isNan || y.isNan then none
  else if lt x y then some .lt
  else if lt y x then some .gt
  else some .eq

/-- A NaN is ignored. -/
def min (x y : F64) : F64 :=
  if x.isNan then y else if y.isNan then x else if lt y x then y else x

/-- Where a value stands, NaN below all. -/
def rank : F64 → WithBot (WithTop ℚ)
  | .nan => ⊥
  | .negInf => ⊥
  | .fin q => ((q : WithTop ℚ) : WithBot (WithTop ℚ))
  | .posInf => ((⊤ : WithTop ℚ) : WithBot (WithTop ℚ))

theorem lt_iff {x y : F64} (hx : x.isNan = false) (hy : y.isNan = false) : lt x y = true ↔ x.rank < y.rank := by
  cases x <;> cases y <;> simp_all [isNan, lt, rank]
  exact WithBot.coe_lt_coe.2 (WithTop.coe_lt_top _)

theorem le_iff {x y : F64} (hx : x.isNan = false) (hy : y.isNan = false) : le x y = true ↔ x.rank ≤ y.rank := by
  rw [le, hx, hy, Bool.not_false, Bool.true_and, Bool.true_and, Bool.not_eq_true', ← not_lt, ← lt_iff hy hx,
    Bool.not_eq_true]

/-- A value is not before another in descending order exactly when it is not smaller. -/
theorem partialCmp_ne_gt_iff {x y : F64} (hx : x.isNan = false) (hy : y.isNan = false) :
    (partialCmp y x).getD .eq ≠ .gt ↔ y.rank ≤ x.rank := by
  rw [← not_lt, ← lt_iff hx hy]
  simp only [partialCmp, hx, hy, Bool.or_self, Bool.false_eq_true, if_false]
  by_cases hyx : lt y x = true
  · have hnot : ¬ lt x y = true := by
      rw [lt_iff hx hy, not_lt]
      exact ((lt_iff hy hx).1 hyx).le
    simp [hyx, hnot]
  · by_cases hxy : lt x y = true <;> simp [hyx, hxy]

end F64
