import Mathlib.Order.BoundedOrder.Lattice
import Mathlib.Data.List.Induction
/-!
# Passes over a list

A loop looks for the largest of the values `v j` over the places `js`, from a bottom value, and
moves on only when it finds a strictly larger one: it keeps the first place of the maximum. `i` is the
place it reports when nothing is above the bottom. A loop over the entries with their indices
(`enumerate`) meets them in the order of the indices.
-/
namespace Scan

variable {α : Type*} [LinearOrder α] [OrderBot α] {v : ℕ → α} {i j : ℕ} {js : List ℕ}

def step (v : ℕ → α) (best : ℕ × α) (j : ℕ) : ℕ × α := if best.2 < v j then (j, v j) else best

def scan (v : ℕ → α) (i : ℕ) (js : List ℕ) : ℕ × α := js.foldl (step v) (i, ⊥)

@[simp] theorem scan_nil : scan v i [] = (i, ⊥) := rfl

theorem scan_concat : scan v i (js ++ [j]) = step v (scan v i js) j := by simp [scan]

omit [OrderBot α] in
theorem le_step (best : ℕ × α) (j : ℕ) : best.2 ≤ (step v best j).2 ∧ v j ≤ (step v best j).2 := by
  unfold step
  split
  · rename_i h
    exact ⟨h.le, le_rfl⟩
  · rename_i h
    exact ⟨le_rfl, not_lt.1 h⟩

theorem le_scan : ∀ j ∈ js, v j ≤ (scan v i js).2 := by
  induction js using List.reverseRecOn with
  | nil => simp
  | append_singleton js k ih =>
    intro j hj
    obtain ⟨hold, hnew⟩ := le_step (v := v) (scan v i js) k
    rw [scan_concat]
    rcases List.mem_append.1 hj with hj | hj
    · exact (ih j hj).trans hold
    · rw [List.mem_singleton.1 hj]
      exact hnew

/-- The pass ends at a place it has looked at, or has found nothing. -/
theorem scan_cases (v : ℕ → α) (i : ℕ) (js : List ℕ) :
    scan v i js = (i, ⊥) ∨ (scan v i js).1 ∈ js ∧ (scan v i js).2 = v (scan v i js).1 := by
  induction js using List.reverseRecOn with
  | nil => simp
  | append_singleton js k ih =>
    rw [scan_concat, step]
    split
    · simp
    · rcases ih with h | ⟨hmem, hv⟩
      · simp [h]
      · right
        exact ⟨List.mem_append_left _ hmem, hv⟩

/-- The reported value is the value of the reported place. -/
theorem scan_value (hi : i ∈ js) : (scan v i js).1 ∈ js ∧ (scan v i js).2 = v (scan v i js).1 := by
  rcases scan_cases v i js with h | h
  · have hbot : v i ≤ ⊥ := by simpa [h] using le_scan (i := i) (v := v) i hi
    rw [h]
    exact ⟨hi, (le_bot_iff.1 hbot).symm⟩
  · exact h

/-- A last place above all the others is the place of the maximum. -/
theorem scan_last (h : ∀ j ∈ js, v j < v i) : (scan v i (js ++ [i])).1 = i := by
  rw [scan_concat, step]
  split
  · rfl
  · rename_i hnot
    rcases scan_cases v i js with hnone | ⟨hmem, hv⟩
    · rw [hnone]
    · rw [hv] at hnot
      exact absurd (h _ hmem) hnot

/-! ## Entries with their indices -/

/-- What is kept of two entries is related if the indices of the entries say so. -/
theorem pairwise_filterMap_zipIdx {β γ : Type*} {f : β × ℕ → Option γ} {R : γ → γ → Prop}
    (hR : ∀ a b x y, a.2 < b.2 → f a = some x → f b = some y → R x y) (l : List β) :
    (l.zipIdx.filterMap f).Pairwise R := by
  have hidx : l.zipIdx.Pairwise fun a b => a.2 < b.2 := by
    apply List.pairwise_map.1
    rw [List.zipIdx_map_snd]
    exact List.pairwise_lt_range'
  apply List.Pairwise.filterMap _ _ hidx
  intro a b hab x hx y hy
  exact hR a b x y hab hx hy

end Scan
