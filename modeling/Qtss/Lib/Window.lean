import Mathlib.Data.List.DropRight
/-!
# Sliding windows

The window of length `n` over a list of entries is its last `n` of them, Mathlib's `List.rtake n`. A
program keeps it by pushing each entry and dropping the oldest ones, `(w ++ [x]).rtake n`; pushing
onto the window of `l` gives the window of `l ++ [x]` (`rtake_push`), and a shorter window is the
end of a longer one (`rtake_rtake`).
-/
namespace Window

variable {α : Type*} {m n : ℕ}

theorem length_rtake (l : List α) : (l.rtake n).length = min n l.length := by
  rw [List.rtake, List.length_drop]
  omega

theorem rtake_subset (l : List α) : l.rtake n ⊆ l := List.drop_subset _ _

theorem rtake_rtake (hm : m ≤ n) (l : List α) : (l.rtake n).rtake m = l.rtake m := by
  rw [List.rtake, List.rtake, List.rtake, List.drop_drop, List.length_drop]
  congr 1
  omega

theorem rtake_push (hn : 0 < n) (l : List α) (x : α) :
    (l.rtake n ++ [x]).rtake n = (l ++ [x]).rtake n := by
  obtain ⟨n, rfl⟩ := Nat.exists_eq_succ_of_ne_zero hn.ne'
  rw [List.rtake_concat_succ, List.rtake_concat_succ, rtake_rtake (Nat.le_succ n)]

theorem mem_push (hn : 0 < n) (l : List α) (x : α) : x ∈ (l ++ [x]).rtake n := by
  obtain ⟨n, rfl⟩ := Nat.exists_eq_succ_of_ne_zero hn.ne'
  rw [List.rtake_concat_succ]
  exact List.mem_concat_self

/-- A window of two or more holds the last entry but one. -/
theorem mem_push_push (hn : 1 < n) (l : List α) (x y : α) : x ∈ (l ++ [x] ++ [y]).rtake n := by
  obtain ⟨n, rfl⟩ := Nat.exists_eq_succ_of_ne_zero (Nat.zero_lt_of_lt hn).ne'
  rw [List.rtake_concat_succ]
  exact List.mem_append_left _ (mem_push (Nat.lt_of_succ_lt_succ hn) l x)

theorem rtake_one (l : List α) (x : α) : (l ++ [x]).rtake 1 = [x] := by
  rw [List.rtake_concat_succ, List.rtake_zero, List.nil_append]

/-- A window reaches back over the last entries and into the window before them. -/
theorem mem_rtake_append {l r : List α} {x : α} (h : x ∈ (l ++ r).rtake n) : x ∈ l.rtake n ∨ x ∈ r := by
  rw [List.rtake, List.drop_append, List.mem_append] at h
  rcases h with h | h
  · left
    refine List.drop_subset_drop_left l ?_ h
    rw [List.length_append]
    omega
  · exact .inr (List.mem_of_mem_drop h)

end Window
