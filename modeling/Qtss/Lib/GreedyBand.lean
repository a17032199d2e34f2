import Mathlib.Algebra.BigOperators.Intervals
import Mathlib.Algebra.Order.BigOperators.Group.Finset
/-!
# Bands that grow by their heavier neighbour

A band of the places `0 … n - 1` starts at `p` and, as long as its weight is short of a target, takes the heavier of the
two places next to it (`Grown`). It need not be the shortest band around `p` of that weight, as a light neighbour may hide
a heavy place. Where the weights do not rise on the way from `p` it is: a grown band is then the heaviest of its length
(`Grown.heaviest`), so that no shorter one reaches the target (`Grown.shortest`).
-/

namespace GreedyBand
open Finset

variable {R : Type*} [AddCommGroup R] [LinearOrder R] {vol : ℕ → R} {n p : ℕ} {target : R}
  {lo hi a b : ℕ}

/-- Of the places from `lo` to `hi`. -/
def weight (vol : ℕ → R) (lo hi : ℕ) : R := ∑ i ∈ Ico lo (hi + 1), vol i

inductive Grown (vol : ℕ → R) (n p : ℕ) (target : R) : ℕ → ℕ → Prop where
  | start : Grown vol n p target p p
  | upper {lo hi : ℕ} : Grown vol n p target lo hi → weight vol lo hi < target → hi + 1 < n →
      (0 < lo → vol (lo - 1) ≤ vol (hi + 1)) → Grown vol n p target lo (hi + 1)
  | lower {lo hi : ℕ} : Grown vol n p target (lo + 1) hi → weight vol (lo + 1) hi < target →
      (hi + 1 < n → vol (hi + 1) < vol lo) → Grown vol n p target lo hi

omit [LinearOrder R] in
@[simp] theorem weight_self (p : ℕ) : weight vol p p = vol p := by
  rw [weight, Nat.Ico_succ_singleton, sum_singleton]

omit [LinearOrder R] in
theorem weight_upper (h : lo ≤ hi + 1) : weight vol lo (hi + 1) = weight vol lo hi + vol (hi + 1) :=
  sum_Ico_succ_top h vol

omit [LinearOrder R] in
theorem weight_lower (h : lo ≤ hi) : weight vol lo hi = vol lo + weight vol (lo + 1) hi :=
  sum_eq_sum_Ico_succ_bot (Nat.lt_succ_of_le h) vol

theorem Grown.around (h : Grown vol n p target lo hi) : lo ≤ p ∧ p ≤ hi := by
  induction h with
  | start => exact ⟨le_rfl, le_rfl⟩
  | upper _ _ _ _ ih => exact ⟨ih.1, ih.2.trans (Nat.le_succ _)⟩
  | lower _ _ _ ih => exact ⟨(Nat.le_succ _).trans ih.1, ih.2⟩

theorem Grown.lt (h : Grown vol n p target lo hi) (hp : p < n) : hi < n := by
  induction h with
  | start => exact hp
  | upper _ _ hlt _ _ => exact hlt
  | lower _ _ _ ih => exact ih

/-- It has passed through every shorter length, and was short of the target there. -/
theorem Grown.stage (h : Grown vol n p target lo hi) {m : ℕ} (hm : m < hi - lo) :
    ∃ lo' hi', Grown vol n p target lo' hi' ∧ hi' - lo' = m ∧ weight vol lo' hi' < target := by
  induction h with
  | start => omega
  | @upper lo hi hgrown hshort hlt hnext ih =>
    rcases Nat.lt_or_ge m (hi - lo) with hlt' | hge
    · exact ih hlt'
    · have hle := hgrown.around.1.trans hgrown.around.2
      exact ⟨lo, hi, hgrown, by omega, hshort⟩
  | @lower lo hi hgrown hshort hnext ih =>
    rcases Nat.lt_or_ge m (hi - (lo + 1)) with hlt' | hge
    · exact ih hlt'
    · exact ⟨lo + 1, hi, hgrown, by omega, hshort⟩

/-! ## Weights that fall on both sides -/

/-- The weights do not rise on the way from `p`. -/
structure Peaked (vol : ℕ → R) (n p : ℕ) : Prop where
  rising : ∀ {i j}, i ≤ j → j ≤ p → vol i ≤ vol j
  falling : ∀ {i j}, p ≤ i → i ≤ j → j < n → vol j ≤ vol i

section peaked
variable (hpeak : Peaked vol n p)
include hpeak

/-- Each end that was taken is at least as heavy as what is left on the other side. -/
theorem Grown.ends (h : Grown vol n p target lo hi) :
    (p < hi → 0 < lo → vol (lo - 1) ≤ vol hi) ∧ (lo < p → hi + 1 < n → vol (hi + 1) ≤ vol lo) := by
  induction h with
  | start => exact ⟨fun h => absurd h (lt_irrefl _), fun h => absurd h (lt_irrefl _)⟩
  | @upper lo hi hgrown hshort hlt hnext ih =>
    refine ⟨fun _ hlo => hnext hlo, fun hlo hnew => ?_⟩
    exact (hpeak.falling (hgrown.around.2.trans (Nat.le_succ _)) (Nat.le_succ _) hnew).trans (ih.2 hlo hlt)
  | @lower lo hi hgrown hshort hnext ih =>
    have hle := hgrown.around.1
    refine ⟨fun hhi hlo => ?_, fun _ hnew => (hnext hnew).le⟩
    exact (hpeak.rising (Nat.sub_le _ _) (by omega)).trans (ih.1 hhi (Nat.succ_pos _))

variable [IsOrderedAddMonoid R]

/-- **Exchange**: a band that is moved to the side loses at the end what it gains at the other, or more. -/
theorem Grown.heaviest (h : Grown vol n p target lo hi) (hp : p < n) (ha : a ≤ p) (hb : p ≤ b) (hbn : b < n)
    (hlength : b - a = hi - lo) : weight vol a b ≤ weight vol lo hi := by
  obtain ⟨hlo, hhi⟩ := h.around
  obtain ⟨hupper, hlower⟩ := h.ends hpeak
  rcases Nat.lt_trichotomy a lo with hlt | rfl | hgt
  · have hbhi : b < hi := by omega
    have hout : ∑ i ∈ Ico a lo, vol i ≤ (lo - a) • vol (lo - 1) := by
      rw [← Nat.card_Ico a lo]
      exact sum_le_card_nsmul _ _ _ fun i hi => hpeak.rising (by have := mem_Ico.1 hi; omega) (by omega)
    have hin : (hi - b) • vol hi ≤ ∑ i ∈ Ico (b + 1) (hi + 1), vol i := by
      have hcard : hi - b = #(Ico (b + 1) (hi + 1)) := by rw [Nat.card_Ico]; omega
      rw [hcard]
      refine card_nsmul_le_sum _ _ _ fun i hmem => ?_
      have hmem := mem_Ico.1 hmem
      exact hpeak.falling (by omega) (by omega) (h.lt hp)
    have hmove : (lo - a) • vol (lo - 1) ≤ (hi - b) • vol hi := by
      rw [show hi - b = lo - a by omega]
      exact nsmul_le_nsmul_right (hupper (by omega) (by omega)) _
    calc weight vol a b = ∑ i ∈ Ico a lo, vol i + ∑ i ∈ Ico lo (b + 1), vol i :=
          (sum_Ico_consecutive vol hlt.le (by omega)).symm
      _ ≤ ∑ i ∈ Ico (b + 1) (hi + 1), vol i + ∑ i ∈ Ico lo (b + 1), vol i :=
          add_le_add_left (hout.trans (hmove.trans hin)) _
      _ = weight vol lo hi := by
          rw [add_comm]
          exact sum_Ico_consecutive vol (by omega) (by omega)
  · rw [show b = hi by omega]
  · have hbhi : hi < b := by omega
    have hout : ∑ i ∈ Ico (hi + 1) (b + 1), vol i ≤ (b - hi) • vol (hi + 1) := by
      have hcard : b - hi = #(Ico (hi + 1) (b + 1)) := by rw [Nat.card_Ico]; omega
      rw [hcard]
      refine sum_le_card_nsmul _ _ _ fun i hmem => ?_
      have hmem := mem_Ico.1 hmem
      exact hpeak.falling (by omega) (by omega) (by omega)
    have hin : (a - lo) • vol lo ≤ ∑ i ∈ Ico lo a, vol i := by
      rw [← Nat.card_Ico lo a]
      exact card_nsmul_le_sum _ _ _ fun i hmem => hpeak.rising (by have := mem_Ico.1 hmem; omega)
        (by have := mem_Ico.1 hmem; omega)
    have hmove : (b - hi) • vol (hi + 1) ≤ (a - lo) • vol lo := by
      rw [show b - hi = a - lo by omega]
      exact nsmul_le_nsmul_right (hlower (by omega) (by omega)) _
    calc weight vol a b = ∑ i ∈ Ico a (hi + 1), vol i + ∑ i ∈ Ico (hi + 1) (b + 1), vol i :=
          (sum_Ico_consecutive vol (by omega) (by omega)).symm
      _ ≤ ∑ i ∈ Ico a (hi + 1), vol i + ∑ i ∈ Ico lo a, vol i :=
          add_le_add_right (hout.trans (hmove.trans hin)) _
      _ = weight vol lo hi := by
          rw [add_comm]
          exact sum_Ico_consecutive vol hgt.le (by omega)

/-- **No shorter band** around `p` reaches the target. -/
theorem Grown.shortest (h : Grown vol n p target lo hi) (hp : p < n) (ha : a ≤ p) (hb : p ≤ b) (hbn : b < n)
    (hreach : target ≤ weight vol a b) : hi - lo ≤ b - a := by
  by_contra hshort
  obtain ⟨lo', hi', hgrown, hlength, hless⟩ := h.stage (not_le.1 hshort)
  exact absurd (hreach.trans (hgrown.heaviest hpeak hp ha hb hbn hlength.symm)) (not_le.2 hless)

end peaked

end GreedyBand
