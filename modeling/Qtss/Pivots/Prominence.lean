import Qtss.Pivots.Confirmed
/-
# The prominence filter (`filter_prominence`, zigzag.rs:265)

"When a pair `[last, cand]` cancels because their swing is too small, `last` is popped; if the new tail and `cand` are
the same kind they merge into whichever is more extreme; if they are opposite kind we re-evaluate against the new tail."
On pivots that alternate the tail under `last` is always of the kind of `cand`. `filterProminence_zigzag` is the
invariant of the comment: what is left still alternates, in the order of the bars.
-/

namespace Qtss.Pivots

/-- The swing from `last` to `cand` is below the threshold. -/
def tooSmall (minPct : ℚ) (last cand : ConfirmedPivot ℚ) : Bool :=
  let base := max |last.price| (1 / 10 ^ 9)
  let delta := |cand.price - last.price|
  decide (delta / base < minPct)

/-- The inner loop for one candidate; `out` newest first. -/
def absorb (minPct : ℚ) (cand : ConfirmedPivot ℚ) : List (ConfirmedPivot ℚ) → List (ConfirmedPivot ℚ)
  | [] => [cand]
  | [last] => if tooSmall minPct last cand then [] else [cand, last]
  | last :: prev :: older =>
    if tooSmall minPct last cand then
      if prev.kind = cand.kind then (if moreExtreme cand.kind cand.price prev.price then cand else prev) :: older
      else absorb minPct cand (prev :: older)
    else cand :: last :: prev :: older

def filterProminence (pivots : List (ConfirmedPivot ℚ)) (minPct : ℚ) : List (ConfirmedPivot ℚ) :=
  if minPct ≤ 0 ∨ pivots.length < 2 then pivots
  else (pivots.foldl (fun out cand => absorb minPct cand out) []).reverse

/-! ## What is left alternates -/

/-- In the order of the bars, the kinds in turn. -/
structure Zigzag (ps : List (ConfirmedPivot ℚ)) : Prop where
  sorted : ps.Pairwise (·.barIndex < ·.barIndex)
  alternate : ps.IsChain Alternate

/-- The same, newest first. -/
structure Backwards (out : List (ConfirmedPivot ℚ)) : Prop where
  sorted : out.Pairwise fun B A => A.barIndex < B.barIndex
  alternate : out.IsChain fun B A => Alternate A B

variable {minPct : ℚ} {cand A B C : ConfirmedPivot ℚ} {ps out : List (ConfirmedPivot ℚ)}

theorem Backwards.reverse (h : Backwards out) : Zigzag out.reverse where
  sorted := List.pairwise_reverse.2 h.sorted
  alternate := List.isChain_reverse.2 h.alternate

/-- The pivot before the one before is of the same kind. -/
theorem Alternate.kind_eq (hAB : Alternate A B) (hBC : Alternate B C) : A.kind = C.kind := by
  unfold Alternate at hAB hBC
  rw [hBC, hAB]
  cases A.kind <;> rfl

/-- The candidate fits on top. -/
structure Fits (cand : ConfirmedPivot ℚ) (out : List (ConfirmedPivot ℚ)) : Prop where
  later : ∀ A ∈ out, A.barIndex < cand.barIndex
  opposite : ∀ A ∈ out.head?, Alternate A cand

theorem Backwards.cons (h : Backwards out) (hfits : Fits cand out) : Backwards (cand :: out) where
  sorted := List.pairwise_cons.2 ⟨hfits.later, h.sorted⟩
  alternate := List.isChain_cons.2 ⟨hfits.opposite, h.alternate⟩

variable (minPct cand out) in
/-- The candidate may come on top, and nothing else is new. -/
theorem absorb_sublist : (absorb minPct cand out).Sublist (cand :: out) := by
  induction out using absorb.induct minPct cand with
  | case1 => exact List.Sublist.refl _
  | case2 last hsmall =>
    rw [absorb, if_pos hsmall]
    exact List.nil_sublist _
  | case3 last hnot =>
    rw [absorb, if_neg hnot]
  | case4 last prev older hsmall hkind =>
    rw [absorb, if_pos hsmall, if_pos hkind]
    split
    next => exact List.Sublist.cons_cons _ (((List.Sublist.refl older).cons prev).cons last)
    next => exact ((List.Sublist.refl (prev :: older)).cons last).cons cand
  | case5 last prev older hsmall hkind ih =>
    rw [absorb, if_pos hsmall, if_neg hkind]
    exact ih.trans (List.Sublist.cons_cons _ ((List.Sublist.refl (prev :: older)).cons last))
  | case6 last prev older hnot =>
    rw [absorb, if_neg hnot]

variable (minPct) in
/-- What a candidate does to pivots that alternate: it goes on top, cancels the only one, or cancels the last one and
merges with the one before. -/
theorem absorb_cases (h : out.IsChain fun B A => Alternate A B) (hopposite : ∀ A ∈ out.head?, Alternate A cand) :
    ((∀ last ∈ out.head?, ¬ tooSmall minPct last cand) ∧ absorb minPct cand out = cand :: out)
    ∨ (∃ last, out = [last] ∧ tooSmall minPct last cand ∧ absorb minPct cand out = [])
    ∨ ∃ last prev older, out = last :: prev :: older ∧ tooSmall minPct last cand ∧ prev.kind = cand.kind
      ∧ absorb minPct cand out = (if moreExtreme cand.kind cand.price prev.price then cand else prev) :: older := by
  match out with
  | [] => exact .inl ⟨fun last hlast => absurd hlast (Option.not_mem_none last), rfl⟩
  | [last] =>
    by_cases hsmall : tooSmall minPct last cand
    · exact .inr (.inl ⟨last, rfl, hsmall, if_pos hsmall⟩)
    · exact .inl ⟨fun A hA => Option.some.inj hA ▸ hsmall, if_neg hsmall⟩
  | last :: prev :: older =>
    by_cases hsmall : tooSmall minPct last cand
    · have hunder : Alternate prev last := (List.isChain_cons.1 h).1 prev rfl
      have hkind : prev.kind = cand.kind := hunder.kind_eq (hopposite last rfl)
      refine .inr (.inr ⟨last, prev, older, rfl, hsmall, hkind, ?_⟩)
      rw [absorb, if_pos hsmall, if_pos hkind]
    · exact .inl ⟨fun A hA => Option.some.inj hA ▸ hsmall, if_neg hsmall⟩

variable (minPct) in
/-- **One candidate** keeps the kinds in turn. -/
theorem alternate_absorb (h : out.IsChain fun B A => Alternate A B) (hopposite : ∀ A ∈ out.head?, Alternate A cand) :
    (absorb minPct cand out).IsChain (fun B A => Alternate A B)
    ∧ ∀ A ∈ (absorb minPct cand out).head?, A.kind = cand.kind := by
  rcases absorb_cases minPct h hopposite with ⟨-, heq⟩ | ⟨last, rfl, -, heq⟩ | ⟨last, prev, older, rfl, -, hkind, heq⟩
  · rw [heq]
    exact ⟨List.isChain_cons.2 ⟨hopposite, h⟩, fun A hA => Option.some.inj hA ▸ rfl⟩
  · rw [heq]
    exact ⟨List.isChain_nil, fun _ hA => nomatch hA⟩
  · rw [heq]
    obtain ⟨hprev, holder⟩ := List.isChain_cons.1 (List.isChain_cons.1 h).2
    split
    next =>
      -- the candidate takes the place of a pivot of its kind
      refine ⟨List.isChain_cons.2 ⟨fun A hA => ?_, holder⟩, fun A hA => Option.some.inj hA ▸ rfl⟩
      exact hkind.symm.trans (hprev A hA)
    next => exact ⟨List.isChain_cons.2 ⟨hprev, holder⟩, fun A hA => Option.some.inj hA ▸ hkind⟩

variable (minPct) in
/-- **One candidate.** -/
theorem backwards_absorb (h : Backwards out) (hfits : Fits cand out) :
    Backwards (absorb minPct cand out) ∧ absorb minPct cand out ⊆ cand :: out ∧
      ∀ A ∈ (absorb minPct cand out).head?, A.kind = cand.kind := by
  have hsublist := absorb_sublist minPct cand out
  obtain ⟨halternate, hkind⟩ := alternate_absorb minPct h.alternate hfits.opposite
  exact ⟨⟨(h.cons hfits).sorted.sublist hsublist, halternate⟩, hsublist.subset, hkind⟩

variable (minPct) in
theorem backwards_foldl (hps : Zigzag ps) (h : Backwards out) (hlater : ∀ A ∈ out, ∀ p ∈ ps, A.barIndex < p.barIndex)
    (hopposite : ∀ A ∈ out.head?, ∀ p ∈ ps.head?, Alternate A p) :
    Backwards (ps.foldl (fun out cand => absorb minPct cand out) out) ∧
      ∀ A ∈ ps.foldl (fun out cand => absorb minPct cand out) out, A ∈ out ∨ A ∈ ps := by
  induction ps generalizing out with
  | nil => exact ⟨h, fun A hA => .inl hA⟩
  | cons cand ps ih =>
    obtain ⟨hcand, hsorted⟩ := List.pairwise_cons.1 hps.sorted
    obtain ⟨hnext, halternate⟩ := List.isChain_cons.1 hps.alternate
    obtain ⟨habsorb, hsubset, hkind⟩ := backwards_absorb minPct h
      ⟨fun A hA => hlater A hA cand (by simp), fun A hA => hopposite A hA cand rfl⟩
    have hlater' : ∀ A ∈ absorb minPct cand out, ∀ p ∈ ps, A.barIndex < p.barIndex := by
      intro A hA p hp
      rcases List.mem_cons.1 (hsubset hA) with rfl | hold
      exacts [hcand p hp, hlater A hold p (by simp [hp])]
    have hopposite' : ∀ A ∈ (absorb minPct cand out).head?, ∀ p ∈ ps.head?, Alternate A p := by
      intro A hA p hp
      unfold Alternate
      rw [hkind A hA]
      exact hnext p hp
    obtain ⟨hall, hmem⟩ := ih ⟨hsorted, halternate⟩ habsorb hlater' hopposite'
    refine ⟨hall, fun A hA => ?_⟩
    rcases hmem A hA with hA | hA
    · rcases List.mem_cons.1 (hsubset hA) with rfl | hold
      exacts [.inr (by simp), .inl hold]
    · exact .inr (List.mem_cons_of_mem _ hA)

/-- **The filter** keeps pivots that alternate, and makes none up. -/
theorem filterProminence_zigzag (h : Zigzag ps) (minPct : ℚ) :
    Zigzag (filterProminence ps minPct) ∧ filterProminence ps minPct ⊆ ps := by
  unfold filterProminence
  split
  next => exact ⟨h, List.Subset.refl _⟩
  next =>
    have hnil : Backwards [] := ⟨List.Pairwise.nil, List.isChain_nil⟩
    obtain ⟨hout, hmem⟩ := backwards_foldl minPct h hnil (fun _ hA => nomatch hA) (fun _ hA => nomatch hA)
    refine ⟨hout.reverse, fun A hA => ?_⟩
    exact (hmem A (List.mem_reverse.1 hA)).resolve_left List.not_mem_nil

end Qtss.Pivots
