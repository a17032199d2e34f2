import Qtss.Lib.Float64
/-!
# Arithmetic of floats, without its laws

What a program does with floats does not always depend on what they are: which entries of a series it reads, or that a
NaN stays a NaN. `Floating` has the operations and nothing that holds of them, so that it covers doubles (`F64`) as well as
exact numbers. `NanPropagates` is the one law of doubles that is needed here.
-/

class Floating (F : Type) extends Add F, Sub F, Mul F, Div F, Neg F where
  /-- The float that stands for a number, such as a literal. -/
  lit : ℚ → F
  nan : F
  infinity : F
  negInfinity : F
  lt : F → F → Bool
  isNan : F → Bool
  sqrt : F → F

namespace Floating

variable {F : Type} [Floating F]

def le (x y : F) : Bool := !isNan x && !isNan y && !lt y x

def eq (x y : F) : Bool := le x y && le y x

/-- A NaN is ignored. -/
def max (x y : F) : F := if isNan x then y else if isNan y then x else if lt x y then y else x

def min (x y : F) : F := if isNan x then y else if isNan y then x else if lt y x then y else x

def abs (x : F) : F := if lt x (lit 0) then -x else x

def sum (xs : List F) : F := xs.foldl (· + ·) (lit 0)

/-- Where an operand is NaN, so is the result; and there is one NaN. -/
class NanPropagates (F : Type) [Floating F] : Prop where
  isNan_iff {x : F} : isNan x = true ↔ x = nan
  add {x y : F} : isNan x = true ∨ isNan y = true → isNan (x + y) = true
  sub {x y : F} : isNan x = true ∨ isNan y = true → isNan (x - y) = true
  mul {x y : F} : isNan x = true ∨ isNan y = true → isNan (x * y) = true
  div {x y : F} : isNan x = true ∨ isNan y = true → isNan (x / y) = true

@[simp] theorem isNan_nan [NanPropagates F] : isNan (nan : F) = true := NanPropagates.isNan_iff.2 rfl

/-- A sum over a NaN. -/
theorem isNan_sum [NanPropagates F] {xs : List F} {x : F} (hx : x ∈ xs) (hnan : isNan x = true) :
    isNan (sum xs) = true := by
  have hfold : ∀ (xs : List F) (acc : F), isNan acc = true ∨ (∃ x ∈ xs, isNan x = true) →
      isNan (xs.foldl (· + ·) acc) = true := by
    intro xs
    induction xs with
    | nil => intro acc h; simpa using h
    | cons y ys ih =>
      intro acc h
      refine ih _ ?_
      rcases h with hacc | ⟨x, hx, hnan⟩
      · exact .inl (NanPropagates.add (.inl hacc))
      · rcases List.mem_cons.1 hx with rfl | hx
        · exact .inl (NanPropagates.add (.inr hnan))
        · exact .inr ⟨x, hx, hnan⟩
  exact hfold xs _ (.inr ⟨x, hx, hnan⟩)

end Floating

namespace F64

/-- With a bit more than a double has, and half a step more where the root is not exact. -/
def sqrt : F64 → F64
  | .fin q =>
    if q < 0 then .nan
    else if q = 0 then .fin 0
    else
      let k := 60 - exponent q / 2
      let scaled := q * pow2 (2 * k)
      let s := Nat.sqrt ⌊scaled⌋.toNat
      round ((if (s : ℚ) * s = scaled then (s : ℚ) else s + 1 / 2) / pow2 k)
  | .posInf => .posInf
  | _ => .nan

instance : Floating F64 where
  add := add
  sub := sub
  mul := mul
  div := div
  neg := neg
  lit := round
  nan := .nan
  infinity := .posInf
  negInfinity := .negInf
  lt := lt
  isNan := isNan
  sqrt := sqrt

instance : Floating.NanPropagates F64 where
  isNan_iff {x} := show x.isNan = true ↔ x = .nan by cases x <;> simp [isNan]
  add {x y} h := show (add x y).isNan = true by
    rcases h with h | h <;> cases x <;> cases y <;> simp_all [Floating.isNan, isNan, add]
  sub {x y} h := show (sub x y).isNan = true by
    rcases h with h | h <;> cases x <;> cases y <;> simp_all [Floating.isNan, isNan, sub, neg, add]
  mul {x y} h := show (mul x y).isNan = true by
    rcases h with h | h <;> cases x <;> cases y <;> simp_all [Floating.isNan, isNan, mul]
  div {x y} h := show (div x y).isNan = true by
    rcases h with h | h <;> cases x <;> cases y <;> simp_all [Floating.isNan, isNan, div]

end F64
