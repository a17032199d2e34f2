import Mathlib.Order.Basic
/-!
# Computations that may fail

Inversion of what is written with `?`: a sequence succeeds when its parts do (`bind_eq_ok`), and a fold that succeeds
has taken every step of it (`foldlM_ok_cons`). `foldlM_measure` adds up what each step of such a fold adds to a measure.
-/

namespace Fallible

variable {ε α β : Type}

theorem bind_eq_ok {x : Except ε α} {f : α → Except ε β} {y : β} :
    x >>= f = .ok y ↔ ∃ a, x = .ok a ∧ f a = .ok y := by
  cases x with
  | error e => exact ⟨nofun, nofun⟩
  | ok a =>
    constructor
    · exact fun h => ⟨a, rfl, h⟩
    · rintro ⟨a', ha, h⟩
      cases ha
      exact h

/-- What comes after need only agree on the values that come out. -/
theorem bind_congr_ok {x : Except ε α} {f g : α → Except ε β} (h : ∀ a, x = .ok a → f a = g a) :
    x >>= f = x >>= g := by
  cases x with
  | error e => rfl
  | ok a => exact h a rfl

theorem isOk_iff {x : Except ε α} : x.isOk ↔ ∃ a, x = .ok a := by
  cases x with
  | error e => exact ⟨nofun, nofun⟩
  | ok a => exact ⟨fun _ => ⟨a, rfl⟩, fun _ => rfl⟩

variable {step : β → α → Except ε β}

theorem foldlM_ok_cons {a : α} {as : List α} {b b' : β} :
    (a :: as).foldlM step b = .ok b' ↔ ∃ next, step b a = .ok next ∧ as.foldlM step next = .ok b' := by
  rw [List.foldlM_cons]
  exact bind_eq_ok

/-- Steps that add `k` at least to a measure add `k` for each element. -/
theorem foldlM_measure (size : β → ℕ) {k : ℕ} (hstep : ∀ b a next, step b a = .ok next → size b + k ≤ size next)
    {as : List α} {b b' : β} (h : as.foldlM step b = .ok b') : size b + as.length * k ≤ size b' := by
  induction as generalizing b with
  | nil =>
    obtain rfl : b = b' := Except.ok.inj h
    simp
  | cons a as ih =>
    obtain ⟨next, hnext, hrest⟩ := foldlM_ok_cons.1 h
    calc size b + (as.length + 1) * k = size b + k + as.length * k := by rw [Nat.succ_mul]; omega
      _ ≤ size next + as.length * k := Nat.add_le_add_right (hstep b a next hnext) _
      _ ≤ size b' := ih hrest

end Fallible
