import Mathlib.Algebra.GroupWithZero.Nat
import Mathlib.Data.List.Basic
/-!
# A counting loop that may break

The body adds to a score or breaks the loop (`none`). `run_clear` says that entries which add nothing, before and after
the others, change neither the verdict nor the score.
-/

namespace BreakLoop

variable {ι : Type*} {body body' : ι → Option ℕ} {pre post is : List ι} {score total : ℕ}

/-- Whether the loop went through, the score, and the entries it looked at. -/
def run (body : ι → Option ℕ) : List ι → ℕ × ℕ → Bool × ℕ × ℕ
  | [], (score, total) => (true, score, total)
  | i :: is, (score, total) =>
    match body i with
    | none => (false, score, total + 1)
    | some k => run body is (score + k, total + 1)

theorem run_cons_some {i : ι} {k : ℕ} (h : body i = some k) :
    run body (i :: is) (score, total) = run body is (score + k, total + 1) := by
  simp [run, h]

theorem run_cons_none {i : ι} (h : body i = none) : run body (i :: is) (score, total) = (false, score, total + 1) := by
  simp [run, h]

theorem run_congr (h : ∀ i ∈ is, body i = body' i) (s : ℕ × ℕ) : run body is s = run body' is s := by
  induction is generalizing s with
  | nil => rfl
  | cons i is ih =>
    obtain ⟨hi, his⟩ := List.forall_mem_cons.1 h
    simp only [run, hi, ih his]

/-- The loop went through when no body broke it. -/
theorem run_fst : (run body is (score, total)).1 = true ↔ ∀ i ∈ is, body i ≠ none := by
  induction is generalizing score total with
  | nil => simp [run]
  | cons i is ih =>
    rw [List.forall_mem_cons]
    cases hi : body i with
    | none => simp [run_cons_none hi]
    | some k => simp [run_cons_some hi, ih]

theorem run_snd (score total : ℕ) (h : ∀ i ∈ is, body i ≠ none) : (run body is (score, total)).2 =
    (score + (is.map fun i => (body i).getD 0).sum, total + is.length) := by
  induction is generalizing score total with
  | nil => simp [run]
  | cons i is ih =>
    obtain ⟨hi, his⟩ := List.forall_mem_cons.1 h
    obtain ⟨k, hk⟩ := Option.ne_none_iff_exists'.1 hi
    rw [run_cons_some hk, ih _ _ his, List.map_cons, hk, List.sum_cons, List.length_cons, Option.getD_some, Nat.add_assoc,
      Nat.add_assoc, Nat.add_comm is.length]

/-- The score is what the entries before the break add. -/
theorem run_score (is : List ι) (score total : ℕ) : (run body is (score, total)).2.1 =
    score + ((is.takeWhile fun i => (body i).isSome).map fun i => (body i).getD 0).sum := by
  induction is generalizing score total with
  | nil => simp [run]
  | cons i is ih =>
    cases hi : body i with
    | none => simp [run_cons_none hi, hi]
    | some k => simp [run_cons_some hi, ih, hi, Nat.add_assoc]

theorem run_append_of_clear (is : List ι) (score total : ℕ) (h : ∀ i ∈ pre, body i = some 0) :
    run body (pre ++ is) (score, total) = run body is (score, total + pre.length) := by
  induction pre generalizing total with
  | nil => rfl
  | cons i pre ih =>
    obtain ⟨hi, hpre⟩ := List.forall_mem_cons.1 h
    rw [List.cons_append, run_cons_some hi, Nat.add_zero, ih _ hpre, List.length_cons, Nat.add_assoc, Nat.add_comm 1]

/-- Nothing more, once the loop is past the last entry that counts. -/
theorem run_concat_of_clear (is : List ι) (h : ∀ i ∈ post, body i = some 0) (s : ℕ × ℕ) :
    (run body (is ++ post) s).1 = (run body is s).1 ∧ (run body (is ++ post) s).2.1 = (run body is s).2.1 := by
  induction is generalizing s with
  | nil =>
    have hrun := run_append_of_clear [] s.1 s.2 h
    rw [List.append_nil] at hrun
    rw [List.nil_append, hrun]
    exact ⟨rfl, rfl⟩
  | cons i is ih =>
    cases hi : body i with
    | none => simp [run, hi]
    | some k => simpa [run, hi] using ih (s.1 + k, s.2 + 1)

/-- The score does not depend on what was looked at before. -/
theorem run_total (body : ι → Option ℕ) (is : List ι) (score total total' : ℕ) :
    (run body is (score, total)).1 = (run body is (score, total')).1 ∧
      (run body is (score, total)).2.1 = (run body is (score, total')).2.1 := by
  induction is generalizing score total total' with
  | nil => exact ⟨rfl, rfl⟩
  | cons i is ih =>
    cases hi : body i with
    | none => simp [run, hi]
    | some k => simpa [run, hi] using ih (score + k) (total + 1) (total' + 1)

/-- **Entries around the others that add nothing.** -/
theorem run_clear (mid : List ι) (hpre : ∀ i ∈ pre, body i = some 0) (hpost : ∀ i ∈ post, body i = some 0) :
    (run body (pre ++ mid ++ post) (0, 0)).1 = (run body mid (0, 0)).1 ∧
      (run body (pre ++ mid ++ post) (0, 0)).2.1 = (run body mid (0, 0)).2.1 := by
  obtain ⟨hvalid, hscore⟩ := run_concat_of_clear (pre ++ mid) hpost (0, 0)
  obtain ⟨hvalid', hscore'⟩ := run_total body mid 0 (0 + pre.length) 0
  rw [hvalid, hscore, run_append_of_clear mid 0 0 hpre]
  exact ⟨hvalid', hscore'⟩

end BreakLoop
