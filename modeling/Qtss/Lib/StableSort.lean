import Mathlib.Data.List.Sort
/-!
# The first of a stable sort

A stable sort leaves equal entries as they were, so the first sorted entry with a property is the best one that has it,
and the earliest of the best (`firstOf_of_find?_insertionSort`).
-/

namespace StableSort

variable {α : Type*} {r : α → α → Prop} {p : α → Bool} {l : List α} {a b : α}

/-- `a` is the first by `r` of the entries with `p`, and the first of those in the list. -/
def FirstOf (r : α → α → Prop) (p : α → Bool) (l : List α) (a : α) : Prop :=
  ∃ pre post, l = pre ++ a :: post ∧ p a ∧ (∀ b ∈ pre, p b → ¬ r b a) ∧ ∀ b ∈ post, p b → r a b

theorem FirstOf.unique (ha : FirstOf r p l a) (hb : FirstOf r p l b) : a = b := by
  obtain ⟨pre, post, rfl, hpa, hpre, hpost⟩ := ha
  obtain ⟨pre', post', heq, hpb, hpre', hpost'⟩ := hb
  rcases List.append_eq_append_iff.1 heq with ⟨mid, hmid, hmid'⟩ | ⟨mid, hmid, hmid'⟩
  · rcases List.cons_eq_append_iff.1 hmid' with ⟨-, h⟩ | ⟨mid', rfl, h⟩
    · exact (List.cons.inj h).1.symm
    · exact absurd (hpost b (by simp [h]) hpb) (hpre' a (by simp [hmid]) hpa)
  · rcases List.cons_eq_append_iff.1 hmid' with ⟨-, h⟩ | ⟨mid', rfl, h⟩
    · exact (List.cons.inj h).1
    · exact absurd (hpost' a (by simp [h]) hpa) (hpre b (by simp [hmid]) hpb)

variable [DecidableRel r] [IsTrans α r]

theorem find?_orderedInsert (a : α) (h : l.Pairwise r) : (l.orderedInsert r a).find? p =
    if p a then (l.find? p).elim (some a) fun b => if r a b then some a else some b else l.find? p := by
  induction l with
  | nil => by_cases hp : p a <;> simp [hp]
  | cons b l ih =>
    obtain ⟨hb, hl⟩ := List.pairwise_cons.1 h
    rw [List.orderedInsert]
    by_cases hab : r a b
    · rw [if_pos hab]
      by_cases hp : p a
      · rw [List.find?_cons_of_pos hp, if_pos hp]
        cases hf : (b :: l).find? p with
        | none => rfl
        | some e =>
          have hae : r a e := by
            rcases List.mem_cons.1 (List.mem_of_find?_eq_some hf) with rfl | he
            · exact hab
            · exact IsTrans.trans _ _ _ hab (hb e he)
          simp [hae]
      · rw [List.find?_cons_of_neg hp, if_neg hp]
    · rw [if_neg hab]
      by_cases hpb : p b
      · rw [List.find?_cons_of_pos hpb, List.find?_cons_of_pos hpb]
        simp [hab]
      · rw [List.find?_cons_of_neg hpb, ih hl, List.find?_cons_of_neg hpb]

/-- **The first entry with `p` after the sort.** -/
theorem firstOf_of_find?_insertionSort [Std.Total r] (h : (l.insertionSort r).find? p = some a) : FirstOf r p l a := by
  induction l generalizing a with
  | nil => simp at h
  | cons b l ih =>
    rw [List.insertionSort_cons, find?_orderedInsert b (List.pairwise_insertionSort r l)] at h
    split at h
    next hp =>
      cases hf : (l.insertionSort r).find? p with
      | none =>
        rw [hf] at h
        obtain rfl : b = a := by simpa using h
        refine ⟨[], l, rfl, hp, by simp, fun e he hpe => ?_⟩
        exact absurd hpe (by simpa using List.find?_eq_none.1 hf e ((List.mem_insertionSort r).2 he))
      | some e =>
        obtain ⟨pre, post, hl, hpe, hpre, hpost⟩ := ih hf
        rw [hf, Option.elim_some] at h
        split at h
        next hbe =>
          obtain rfl := Option.some.inj h
          refine ⟨[], l, rfl, hp, by simp, fun x hx hpx => ?_⟩
          rw [hl, List.mem_append, List.mem_cons] at hx
          rcases hx with hx | rfl | hx
          · exact IsTrans.trans _ _ _ hbe ((Std.Total.total (r := r) x e).resolve_left (hpre x hx hpx))
          · exact hbe
          · exact IsTrans.trans _ _ _ hbe (hpost x hx hpx)
        next hbe =>
          obtain rfl := Option.some.inj h
          refine ⟨b :: pre, post, by rw [hl]; rfl, hpe, ?_, hpost⟩
          intro x hx hpx
          rcases List.mem_cons.1 hx with rfl | hx
          · exact hbe
          · exact hpre x hx hpx
    next hp =>
      obtain ⟨pre, post, hl, hpa, hpre, hpost⟩ := ih h
      refine ⟨b :: pre, post, by rw [hl]; rfl, hpa, ?_, hpost⟩
      intro x hx hpx
      rcases List.mem_cons.1 hx with rfl | hx
      · exact absurd hpx hp
      · exact hpre x hx hpx

end StableSort
