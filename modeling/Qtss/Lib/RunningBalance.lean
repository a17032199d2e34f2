import Mathlib.Algebra.BigOperators.Group.List.Basic
import Mathlib.Algebra.Order.Group.Defs
import Mathlib.Algebra.Order.Group.MinMax
import Mathlib.Data.List.Infix
import Qtss.Lib.Runs
/-!
# Running balances that restart from zero

A balance to which amounts of either sign are added either runs freely (`List.sum`) or is taken back to
zero whenever it would fall below (`restart`). The second is the first less the lowest point it has
been at (`run_restart`), so after all amounts the two agree above zero exactly when the free balance
never was below both zero and its end (`run_restart_eq_iff`).
-/
namespace RunningBalance
open Runs

variable {A : Type*} [AddCommGroup A] [LinearOrder A] [IsOrderedAddMonoid A]

/-- One amount, and back to zero if it leaves less. -/
def restart (b d : A) : A := max 0 (b + d)

omit [IsOrderedAddMonoid A] in
theorem restart_nonneg (b d : A) : 0 ≤ restart b d := le_max_left _ _

/-- The lowest balance on the way, the start included. -/
def lowest : List A → A
  | [] => 0
  | d :: ds => min 0 (d + lowest ds)

omit [IsOrderedAddMonoid A] in
theorem lowest_nonpos (ds : List A) : lowest ds ≤ 0 := by
  cases ds with
  | nil => exact le_rfl
  | cons d ds => exact min_le_left _ _

theorem le_lowest_iff {c : A} {ds : List A} : c ≤ lowest ds ↔ ∀ p, p <+: ds → c ≤ p.sum := by
  induction ds generalizing c with
  | nil => simp [lowest]
  | cons d ds ih =>
    have hstep : c ≤ d + lowest ds ↔ c - d ≤ lowest ds := (sub_le_iff_le_add').symm
    rw [lowest, le_min_iff, hstep, ih]
    constructor
    · rintro ⟨hc, hp⟩ p hpre
      rcases List.prefix_cons_iff.1 hpre with rfl | ⟨q, rfl, hq⟩
      · exact hc
      · rw [List.sum_cons]
        exact sub_le_iff_le_add'.1 (hp q hq)
    · intro h
      refine ⟨h [] (List.nil_prefix), fun q hq => ?_⟩
      have hcons := h (d :: q) (List.prefix_cons_iff.2 (.inr ⟨q, rfl, hq⟩))
      rw [List.sum_cons] at hcons
      exact sub_le_iff_le_add'.2 hcons

/-- **The restarted balance** is the free one, lifted by the lowest it has been. -/
theorem run_restart {b : A} (hb : 0 ≤ b) (ds : List A) :
    run restart b ds = ds.sum + max b (-lowest ds) := by
  induction ds generalizing b with
  | nil => simp [lowest, max_eq_left hb]
  | cons d ds ih =>
    have hlow : 0 ≤ -lowest ds := neg_nonneg.2 (lowest_nonpos ds)
    have hmax : max (restart b d) (-lowest ds) = d + max b (-lowest (d :: ds)) := by
      have hneg : d + -(d + lowest ds) = -lowest ds := by rw [neg_add, add_neg_cancel_left]
      rw [restart, lowest, max_assoc, max_comm 0, max_assoc, max_eq_left hlow, ← max_neg_neg, neg_zero,
        ← max_assoc b, max_eq_left hb, ← max_add_add_left d, hneg, add_comm]
    rw [run_cons, ih (restart_nonneg b d), hmax, List.sum_cons, add_left_comm, add_assoc]

/-- It ends where the free balance ends, or at zero if that ends below, exactly when the free balance was
never lower on the way. -/
theorem run_restart_eq_iff (ds : List A) :
    run restart 0 ds = max 0 ds.sum ↔ ∀ p, p <+: ds → min 0 ds.sum ≤ p.sum := by
  have hlow : min 0 ds.sum ≤ lowest ds ↔ ∀ p, p <+: ds → min 0 ds.sum ≤ p.sum := le_lowest_iff
  have hlift : max 0 ds.sum = ds.sum + -min 0 ds.sum := by
    rw [← max_neg_neg, neg_zero, ← max_add_add_left, add_zero, add_neg_cancel, max_comm]
  have hmin : lowest ds ≤ min 0 ds.sum :=
    le_min (lowest_nonpos ds) (le_lowest_iff.1 le_rfl ds (List.prefix_refl ds))
  rw [run_restart le_rfl, max_eq_right (neg_nonneg.2 (lowest_nonpos ds)), hlift, add_right_inj, neg_inj, ← hlow]
  exact ⟨fun h => h.ge, fun h => le_antisymm hmin h⟩

end RunningBalance
