import Mathlib.Data.List.Forall2
import Mathlib.Data.List.Induction
import Mathlib.Data.List.Range
import Mathlib.Order.Lattice
/-!
# Exhaustive search

A search over a grid looks at every choice of one value from each axis and keeps the best. Choices are by position, so
that values that repeat count as often as they do: `choices` lists them in lexicographic order, each once
(`choices_sorted`, `mem_choices`). A loop that moves on only to what is strictly better ends at the first best
(`IsFirstMax`), or where it started (`foldl_keepBest`).
-/
namespace Exhaustive

/-! ## Choices -/

/-- One position below each of the sizes; the first one varies slowest. -/
def choices : List ℕ → List (List ℕ)
  | [] => [[]]
  | n :: ns => (List.range n).flatMap fun i => (choices ns).map (i :: ·)

theorem mem_choices {c ns : List ℕ} : c ∈ choices ns ↔ List.Forall₂ (· < ·) c ns := by
  induction ns generalizing c with
  | nil => rw [List.forall₂_nil_right_iff, choices, List.mem_singleton]
  | cons n ns ih =>
    simp only [choices, List.mem_flatMap, List.mem_range, List.mem_map, ih, List.forall₂_cons_right_iff]
    constructor
    · rintro ⟨i, hi, rest, hrest, rfl⟩
      exact ⟨i, rest, hi, hrest, rfl⟩
    · rintro ⟨i, rest, hi, hrest, rfl⟩
      exact ⟨i, hi, rest, hrest, rfl⟩

theorem choices_sorted (ns : List ℕ) : (choices ns).Pairwise (· < ·) := by
  induction ns with
  | nil => exact List.pairwise_singleton _ _
  | cons n ns ih =>
    refine List.pairwise_flatMap.2 ⟨fun i _ => ?_, ?_⟩
    · refine List.pairwise_map.2 (ih.imp fun hlt => ?_)
      exact List.cons_lt_cons_iff.2 (.inr ⟨rfl, hlt⟩)
    · refine List.pairwise_lt_range.imp fun hlt => ?_
      intro c hc c' hc'
      obtain ⟨rest, -, rfl⟩ := List.mem_map.1 hc
      obtain ⟨rest', -, rfl⟩ := List.mem_map.1 hc'
      exact List.cons_lt_cons_iff.2 (.inl hlt)

/-! ## The first best -/

section
variable {α K : Type*} [LinearOrder K] {f : α → K}

/-- `x` stands in the list, nothing before it is as good and nothing after it is better. -/
def IsFirstMax (f : α → K) (xs : List α) (x : α) : Prop :=
  ∃ before after, xs = before ++ x :: after ∧ (∀ y ∈ before, f y < f x) ∧ ∀ y ∈ after, f y ≤ f x

/-- One turn of the loop: the best value, and where it was found. -/
def keepBest (f : α → K) (best : K × α) (x : α) : K × α := if best.1 < f x then (f x, x) else best

theorem IsFirstMax.mem {xs : List α} {x : α} (h : IsFirstMax f xs x) : x ∈ xs := by
  obtain ⟨before, after, rfl, -, -⟩ := h
  simp

theorem IsFirstMax.le {xs : List α} {x y : α} (h : IsFirstMax f xs x) (hy : y ∈ xs) : f y ≤ f x := by
  obtain ⟨before, after, rfl, hbefore, hafter⟩ := h
  obtain hy | hy := List.mem_append.1 hy
  · exact (hbefore y hy).le
  · obtain rfl | hy := List.mem_cons.1 hy
    · exact le_rfl
    · exact hafter y hy

/-- **The loop** keeps its start where nothing is better, and else ends at the first best. -/
theorem foldl_keepBest (f : α → K) (start : K × α) (xs : List α) :
    (xs.foldl (keepBest f) start = start ∧ ∀ x ∈ xs, f x ≤ start.1) ∨
      ∃ x, IsFirstMax f xs x ∧ start.1 < f x ∧ xs.foldl (keepBest f) start = (f x, x) := by
  induction xs using List.reverseRecOn with
  | nil => exact .inl ⟨rfl, fun x hx => absurd hx List.not_mem_nil⟩
  | append_singleton xs y ih =>
    rw [List.foldl_append, List.foldl_cons, List.foldl_nil]
    obtain ⟨hfold, hle⟩ | ⟨x, hmax, hstart, hfold⟩ := ih
    · rw [hfold]
      obtain hlt | hge := lt_or_ge start.1 (f y)
      · right
        refine ⟨y, ⟨xs, [], rfl, fun z hz => (hle z hz).trans_lt hlt, by simp⟩, hlt, ?_⟩
        exact if_pos hlt
      · left
        refine ⟨if_neg hge.not_gt, fun z hz => ?_⟩
        obtain hz | hz := List.mem_append.1 hz
        · exact hle z hz
        · rw [List.mem_singleton.1 hz]
          exact hge
    · rw [hfold]
      right
      obtain hlt | hge := lt_or_ge (f x) (f y)
      · refine ⟨y, ⟨xs, [], rfl, fun z hz => (hmax.le hz).trans_lt hlt, by simp⟩, hstart.trans hlt, ?_⟩
        exact if_pos hlt
      · refine ⟨x, ?_, hstart, if_neg hge.not_gt⟩
        obtain ⟨before, after, rfl, hbefore, hafter⟩ := hmax
        refine ⟨before, after ++ [y], by simp, hbefore, fun z hz => ?_⟩
        obtain hz | hz := List.mem_append.1 hz
        · exact hafter z hz
        · rw [List.mem_singleton.1 hz]
          exact hge

end

end Exhaustive
