import Mathlib.Analysis.Real.Sqrt
import Qtss.Lib.Floating
/-!
# Floats without rounding

`Exact` has what doubles have, with the reals as its numbers: an operation on numbers gives the number that a double
rounds. What is proved of a program on `Exact` is what the program is meant to compute.
-/

inductive Exact where
  | nan | negInf | posInf
  | fin (x : ℝ)

namespace Exact

noncomputable section

def neg : Exact → Exact
  | .nan => .nan
  | .negInf => .posInf
  | .posInf => .negInf
  | .fin x => .fin (-x)

def add : Exact → Exact → Exact
  | .fin a, .fin b => .fin (a + b)
  | .nan, _ => .nan
  | _, .nan => .nan
  | .posInf, .negInf => .nan
  | .negInf, .posInf => .nan
  | .fin _, y => y
  | x, _ => x

/-- The infinity with the sign of `x`, for `x ≠ 0`. -/
def infOf (x : ℝ) : Exact := if 0 < x then .posInf else .negInf

def mul : Exact → Exact → Exact
  | .fin a, .fin b => .fin (a * b)
  | .nan, _ => .nan
  | _, .nan => .nan
  | .fin a, .posInf => if a = 0 then .nan else infOf a
  | .fin a, .negInf => if a = 0 then .nan else infOf (-a)
  | .posInf, .fin b => if b = 0 then .nan else infOf b
  | .negInf, .fin b => if b = 0 then .nan else infOf (-b)
  | .posInf, y => y
  | .negInf, y => neg y

def div : Exact → Exact → Exact
  | .fin a, .fin b => if b ≠ 0 then .fin (a / b) else if a = 0 then .nan else infOf a
  | .nan, _ => .nan
  | _, .nan => .nan
  | .fin _, _ => .fin 0
  | .posInf, .fin b => if 0 ≤ b then .posInf else .negInf
  | .negInf, .fin b => if 0 ≤ b then .negInf else .posInf
  | _, _ => .nan

def lt : Exact → Exact → Bool
  | .fin a, .fin b => decide (a < b)
  | .negInf, .fin _ => true
  | .negInf, .posInf => true
  | .fin _, .posInf => true
  | _, _ => false

def isNan : Exact → Bool
  | .nan => true
  | _ => false

def sqrt : Exact → Exact
  | .fin x => if x < 0 then .nan else .fin (Real.sqrt x)
  | .posInf => .posInf
  | _ => .nan

instance : Floating Exact where
  add := add
  sub x y := add x (neg y)
  mul := mul
  div := div
  neg := neg
  lit q := .fin q
  nan := .nan
  infinity := .posInf
  negInfinity := .negInf
  lt := lt
  isNan := isNan
  sqrt := sqrt

end

/-! ## On numbers -/

section numbers
variable {a b : ℝ} {q : ℚ}

@[simp] theorem lit_eq : (Floating.lit q : Exact) = .fin q := rfl

@[simp] theorem nan_eq : (Floating.nan : Exact) = .nan := rfl

@[simp] theorem infinity_eq : (Floating.infinity : Exact) = .posInf := rfl

@[simp] theorem negInfinity_eq : (Floating.negInfinity : Exact) = .negInf := rfl

@[simp] theorem fin_add : (fin a : Exact) + fin b = fin (a + b) := rfl

@[simp] theorem fin_sub : (fin a : Exact) - fin b = fin (a - b) := congrArg fin (sub_eq_add_neg a b).symm

@[simp] theorem fin_mul : (fin a : Exact) * fin b = fin (a * b) := rfl

@[simp] theorem neg_fin : -(fin a : Exact) = fin (-a) := rfl

theorem fin_div (h : b ≠ 0) : (fin a : Exact) / fin b = fin (a / b) := if_pos h

@[simp] theorem lt_fin : Floating.lt (fin a) (fin b) = decide (a < b) := rfl

@[simp] theorem negInf_lt_fin : Floating.lt negInf (fin a) = true := rfl

@[simp] theorem fin_lt_posInf : Floating.lt (fin a) posInf = true := rfl

@[simp] theorem isNan_fin : Floating.isNan (fin a) = false := rfl

@[simp] theorem isNan_nan : Floating.isNan Exact.nan = true := rfl

@[simp] theorem le_fin : Floating.le (fin a) (fin b) = decide (a ≤ b) := by
  by_cases h : a ≤ b
  · simp [Floating.le, h, not_lt.2 h]
  · simp [Floating.le, h, not_le.1 h]

@[simp] theorem max_fin : Floating.max (fin a) (fin b) = fin (max a b) := by
  unfold Floating.max
  by_cases h : a < b
  · simp [h, max_eq_right h.le]
  · simp [h, max_eq_left (not_lt.1 h)]

@[simp] theorem min_fin : Floating.min (fin a) (fin b) = fin (min a b) := by
  unfold Floating.min
  by_cases h : b < a
  · simp [h, min_eq_right h.le]
  · simp [h, min_eq_left (not_lt.1 h)]

@[simp] theorem abs_fin : Floating.abs (fin a) = fin |a| := by
  unfold Floating.abs
  by_cases h : a < 0
  · simp [h, abs_of_neg h]
  · simp [h, abs_of_nonneg (not_lt.1 h)]

@[simp] theorem max_negInf_fin : Floating.max negInf (fin a) = fin a := rfl

@[simp] theorem min_posInf_fin : Floating.min posInf (fin a) = fin a := rfl

end numbers

end Exact
