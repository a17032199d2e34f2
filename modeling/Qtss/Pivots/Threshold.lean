import Mathlib.Data.List.Infix
import Qtss.Pivots.Prominence
/-
# What the prominence filter leaves (zigzag.rs:253-303)

"Drop pivot pairs whose `|Δprice| / prev_price < min_pct`". A candidate that cancels the last pivot may take the place
of the one before it, and nothing then compares it with the pivot before that (`Closes`). `filterProminence_iff`: such
a candidate is the only way in which a swing below the threshold is left, unless a later one takes it away again.
Where no high is below a low beside it no candidate closes in (`recovers_of_ordered`); the zigzag leaves the other kind
of list where it skipped a bar.
-/

namespace Qtss.Pivots

/-- From the one to the other it is at least `minPct` of the earlier price. -/
def Apart (minPct : ℚ) (A B : ConfirmedPivot ℚ) : Prop := minPct * A.price ≤ |B.price - A.price|

/-- What the filter promises of `out`, the pivots that it keeps of `ps`. -/
structure Filtered (minPct : ℚ) (ps out : List (ConfirmedPivot ℚ)) : Prop where
  sublist : out.Sublist ps
  alternate : out.IsChain Alternate
  apart : out.IsChain (Apart minPct)
  fixed : filterProminence out minPct = out

/-- The candidate takes the place of the pivot under the cancelled one, too close to the one before that. -/
def Closes (minPct : ℚ) (cand : ConfirmedPivot ℚ) : List (ConfirmedPivot ℚ) → Prop
  | last :: prev :: before :: _ =>
    tooSmall minPct last cand ∧ moreExtreme cand.kind cand.price prev.price ∧ tooSmall minPct before cand
  | _ => False

instance (A B : ConfirmedPivot ℚ) : Decidable (Alternate A B) := inferInstanceAs (Decidable (B.kind = A.kind.opposite))

instance (minPct : ℚ) (cand : ConfirmedPivot ℚ) : ∀ out, Decidable (Closes minPct cand out)
  | [] => inferInstanceAs (Decidable False)
  | [_] => inferInstanceAs (Decidable False)
  | [_, _] => inferInstanceAs (Decidable False)
  | _ :: _ :: _ :: _ => inferInstanceAs (Decidable (_ ∧ _ ∧ _))

/-- The outer loop, newest first. -/
def absorbAll (minPct : ℚ) (out ps : List (ConfirmedPivot ℚ)) : List (ConfirmedPivot ℚ) :=
  ps.foldl (fun out cand => absorb minPct cand out) out

/-- Every candidate that closes in is gone at some later point: the pivots as it left them are no longer the oldest ones
of the list. -/
def Recovers (minPct : ℚ) : List (ConfirmedPivot ℚ) → List (ConfirmedPivot ℚ) → Prop
  | _, [] => True
  | out, cand :: rest =>
    (Closes minPct cand out →
      ∃ seen ∈ rest.inits, ¬ absorb minPct cand out <:+ absorbAll minPct (absorb minPct cand out) seen)
    ∧ Recovers minPct (absorb minPct cand out) rest

instance Recovers.decidable (minPct : ℚ) : ∀ out ps, Decidable (Recovers minPct out ps)
  | _, [] => inferInstanceAs (Decidable True)
  | out, cand :: rest =>
    have := Recovers.decidable minPct (absorb minPct cand out) rest
    inferInstanceAs (Decidable (_ ∧ Recovers minPct (absorb minPct cand out) rest))

variable {minPct : ℚ} {cand A B : ConfirmedPivot ℚ} {ps out : List (ConfirmedPivot ℚ)}

@[simp] theorem absorbAll_nil : absorbAll minPct out [] = out := rfl

@[simp] theorem absorbAll_cons :
    absorbAll minPct out (cand :: ps) = absorbAll minPct (absorb minPct cand out) ps := rfl

/-- `out` and the pivots to come alternate. -/
structure Ready (out ps : List (ConfirmedPivot ℚ)) : Prop where
  kept : out.IsChain fun B A => Alternate A B
  next : ps.IsChain Alternate
  join : ∀ A ∈ out.head?, ∀ p ∈ ps.head?, Alternate A p

/-! ## The outer loop -/

theorem Ready.absorb (h : Ready out (cand :: ps)) : Ready (absorb minPct cand out) ps := by
  obtain ⟨hnext, hps⟩ := List.isChain_cons.1 h.next
  obtain ⟨hkept, hkind⟩ := alternate_absorb minPct h.kept fun A hA => h.join A hA cand rfl
  refine ⟨hkept, hps, fun A hA p hp => ?_⟩
  rw [Alternate, hkind A hA]
  exact hnext p hp

theorem Ready.absorbAll (h : Ready out ps) : (absorbAll minPct out ps).IsChain fun B A => Alternate A B := by
  induction ps generalizing out with
  | nil => exact h.kept
  | cons cand ps ih => exact ih h.absorb

theorem absorbAll_sublist (minPct : ℚ) (out ps : List (ConfirmedPivot ℚ)) :
    (absorbAll minPct out ps).Sublist (ps.reverse ++ out) := by
  induction ps generalizing out with
  | nil => exact List.Sublist.refl _
  | cons cand ps ih =>
    rw [absorbAll_cons, List.reverse_cons, List.append_assoc]
    exact (ih _).trans ((absorb_sublist minPct cand out).append_left ps.reverse)

theorem absorb_push (h : ∀ last ∈ out.head?, ¬ tooSmall minPct last cand) : absorb minPct cand out = cand :: out := by
  match out with
  | [] => rfl
  | [last] => rw [absorb, if_neg (h last rfl)]
  | last :: prev :: older => rw [absorb, if_neg (h last rfl)]

/-- A candidate too close to the last pivot leaves no more of them than there were. -/
theorem length_absorb_le {last : ConfirmedPivot ℚ} (out : List (ConfirmedPivot ℚ)) (h : tooSmall minPct last cand) :
    (absorb minPct cand (last :: out)).length ≤ out.length + 1 := by
  match out with
  | [] =>
    rw [absorb, if_pos h]
    exact Nat.zero_le _
  | prev :: older =>
    rw [absorb, if_pos h]
    split
    next => exact Nat.le_succ _
    next => exact (absorb_sublist minPct cand (prev :: older)).length_le

theorem length_absorbAll_le (minPct : ℚ) (out ps : List (ConfirmedPivot ℚ)) :
    (absorbAll minPct out ps).length ≤ out.length + ps.length := by
  have hlen := (absorbAll_sublist minPct out ps).length_le
  rw [List.length_append, List.length_reverse] at hlen
  omega

/-- Where every swing is large enough, every candidate goes on top. -/
theorem absorbAll_of_large (out : List (ConfirmedPivot ℚ)) (h : ps.IsChain fun A B => ¬ tooSmall minPct A B)
    (hjoin : ∀ A ∈ out.head?, ∀ p ∈ ps.head?, ¬ tooSmall minPct A p) :
    absorbAll minPct out ps = ps.reverse ++ out := by
  induction ps generalizing out with
  | nil => rfl
  | cons cand ps ih =>
    obtain ⟨hnext, hps⟩ := List.isChain_cons.1 h
    have hjoin' : ∀ A ∈ (cand :: out).head?, ∀ p ∈ ps.head?, ¬ tooSmall minPct A p :=
      fun A hA p hp => Option.some.inj hA ▸ hnext p hp
    rw [absorbAll_cons, absorb_push fun last hlast => hjoin last hlast cand rfl, ih _ hps hjoin',
      List.reverse_cons, List.append_assoc]
    rfl

/-- Where every candidate went on top, every swing was large enough. -/
theorem large_of_length {last : ConfirmedPivot ℚ} (out : List (ConfirmedPivot ℚ))
    (h : (absorbAll minPct (last :: out) ps).length = out.length + 1 + ps.length) :
    (last :: ps).IsChain fun A B => ¬ tooSmall minPct A B := by
  induction ps generalizing last out with
  | nil => exact List.isChain_singleton _
  | cons cand ps ih =>
    rw [absorbAll_cons, List.length_cons] at h
    by_cases hsmall : tooSmall minPct last cand
    · have hlen := length_absorbAll_le minPct (absorb minPct cand (last :: out)) ps
      have habsorb := length_absorb_le out hsmall
      omega
    · have hpush : absorb minPct cand (last :: out) = cand :: last :: out :=
        absorb_push fun A hA => Option.some.inj hA ▸ hsmall
      rw [hpush] at h
      refine List.isChain_cons.2 ⟨fun A hA => Option.some.inj hA ▸ hsmall, ih (last :: out) ?_⟩
      rw [h, List.length_cons]
      omega

/-- Lists of fewer than two pivots are no exception. -/
theorem filterProminence_eq (hmin : 0 < minPct) :
    filterProminence ps minPct = (absorbAll minPct [] ps).reverse := by
  unfold filterProminence
  split
  next hfew =>
    have hlen : ps.length < 2 := hfew.resolve_left (not_le.2 hmin)
    match ps with
    | [] => rfl
    | [p] => rfl
    | p :: q :: rest => exact absurd hlen (Nat.not_lt.2 (Nat.le_add_left 2 rest.length))
  next => rfl

/-- **Filtering again** changes nothing exactly when every swing is large enough. -/
theorem filterProminence_fixed (hmin : 0 < minPct) :
    filterProminence ps minPct = ps ↔ ps.IsChain fun A B => ¬ tooSmall minPct A B := by
  rw [filterProminence_eq hmin]
  constructor
  · intro hfixed
    match ps with
    | [] => exact List.isChain_nil
    | first :: rest =>
      have hlen := congrArg List.length hfixed
      rw [List.length_reverse, absorbAll_cons, Pivots.absorb] at hlen
      exact large_of_length [] (hlen.trans (Nat.add_comm _ _))
  · intro hlarge
    have hpush := absorbAll_of_large [] hlarge fun A hA => absurd hA (Option.not_mem_none A)
    rw [hpush, List.append_nil, List.reverse_reverse]

/-! ## Candidates that close in -/

/-- **One candidate**: a list it leaves with a swing below the threshold was there before, or is what it closed in on. -/
theorem suffix_absorb (h : Ready out (cand :: ps)) {older : List (ConfirmedPivot ℚ)} (hsmall : tooSmall minPct A B)
    (hsuffix : B :: A :: older <:+ absorb minPct cand out) :
    B :: A :: older <:+ out ∨ Closes minPct cand out ∧ absorb minPct cand out = B :: A :: older := by
  rcases absorb_cases minPct h.kept fun A hA => h.join A hA cand rfl with
    ⟨hlarge, heq⟩ | ⟨last, rfl, -, heq⟩ | ⟨last, prev, rest, rfl, hlast, -, heq⟩
  · rw [heq] at hsuffix
    rcases List.suffix_cons_iff.1 hsuffix with hcand | hout
    · obtain ⟨rfl, rfl⟩ := List.cons.inj hcand
      exact absurd hsmall (hlarge A rfl)
    · exact .inl hout
  · rw [heq] at hsuffix
    exact absurd (List.suffix_nil.1 hsuffix) (List.cons_ne_nil _ _)
  · by_cases hmore : moreExtreme cand.kind cand.price prev.price
    · rw [if_pos hmore] at heq
      rw [heq] at hsuffix
      rcases List.suffix_cons_iff.1 hsuffix with hcand | hrest
      · obtain ⟨rfl, rfl⟩ := List.cons.inj hcand
        exact .inr ⟨⟨hlast, hmore, hsmall⟩, heq⟩
      · exact .inl ((hrest.trans (List.suffix_cons prev rest)).trans (List.suffix_cons last _))
    · rw [if_neg hmore] at heq
      rw [heq] at hsuffix
      exact .inl (hsuffix.trans (List.suffix_cons last _))

theorem Closes.out_eq (h : Closes minPct cand out) : ∃ last prev before older, out = last :: prev :: before :: older
    ∧ tooSmall minPct last cand ∧ moreExtreme cand.kind cand.price prev.price ∧ tooSmall minPct before cand := by
  match out, h with
  | last :: prev :: before :: older, h => exact ⟨last, prev, before, older, rfl, h⟩

/-- What a candidate that closes in leaves. -/
theorem absorb_closes (h : Ready out (cand :: ps)) (hcloses : Closes minPct cand out) :
    ∃ before older, absorb minPct cand out = cand :: before :: older ∧ tooSmall minPct before cand := by
  obtain ⟨last, prev, before, older, rfl, hlast, hmore, hbefore⟩ := hcloses.out_eq
  have hunder : Alternate prev last := (List.isChain_cons.1 h.kept).1 prev rfl
  have hkind : prev.kind = cand.kind := hunder.kind_eq (h.join last rfl cand rfl)
  refine ⟨before, older, ?_, hbefore⟩
  rw [absorb, if_pos hlast, if_pos hkind, if_pos hmore]

/-- A swing below the threshold that is left was there before: a candidate that closed in is gone at some point, and
this one never is. -/
theorem Recovers.kept (h : Recovers minPct out ps) (hready : Ready out ps) {older : List (ConfirmedPivot ℚ)}
    (hsmall : tooSmall minPct A B) (hsuffix : B :: A :: older <:+ absorbAll minPct out ps) :
    ∀ seen ∈ ps.inits, B :: A :: older <:+ absorbAll minPct out seen := by
  induction ps generalizing out with
  | nil =>
    intro seen hseen
    rwa [List.prefix_nil.1 ((List.mem_inits _ _).1 hseen)]
  | cons cand ps ih =>
    have hlater := ih h.2 hready.absorb hsuffix
    have hout : B :: A :: older <:+ out := by
      rcases suffix_absorb hready hsmall (hlater [] ((List.mem_inits _ _).2 List.nil_prefix)) with hout | ⟨hcloses, heq⟩
      · exact hout
      · obtain ⟨seen, hseen, hgone⟩ := h.1 hcloses
        exact absurd (heq ▸ hlater seen hseen) hgone
    intro seen hseen
    rcases List.prefix_cons_iff.1 ((List.mem_inits _ _).1 hseen) with rfl | ⟨seen', rfl, hseen'⟩
    · exact hout
    · exact hlater seen' ((List.mem_inits _ _).2 hseen')

/-- Swings below the threshold are where a list begins. -/
theorem large_iff : (out.IsChain fun B A => ¬ tooSmall minPct A B) ↔
    ∀ B A older, B :: A :: older <:+ out → ¬ tooSmall minPct A B := by
  rw [List.isChain_iff_forall_rel_of_append_cons_cons]
  constructor
  · rintro h B A older ⟨newer, hout⟩
    exact h hout.symm
  · intro h B A newer older hout
    exact h B A older ⟨newer, hout.symm⟩

/-- **All candidates**: nothing below the threshold is left exactly where those that close in are gone. -/
theorem large_iff_recovers (h : Ready out ps) (hout : out.IsChain fun B A => ¬ tooSmall minPct A B) :
    (absorbAll minPct out ps).IsChain (fun B A => ¬ tooSmall minPct A B) ↔ Recovers minPct out ps := by
  constructor
  · intro hlarge
    clear hout
    rw [large_iff] at hlarge
    induction ps generalizing out with
    | nil => trivial
    | cons cand ps ih =>
      rw [absorbAll_cons] at hlarge
      refine ⟨fun hcloses => ?_, ih h.absorb hlarge⟩
      obtain ⟨before, older, heq, hsmall⟩ := absorb_closes h hcloses
      refine ⟨ps, (List.mem_inits _ _).2 List.prefix_rfl, fun hkept => ?_⟩
      exact hlarge cand before older (heq ▸ hkept) hsmall
  · intro hrecovers
    rw [large_iff] at hout ⊢
    intro B A older hsuffix hsmall
    have hfirst := hrecovers.kept h hsmall hsuffix [] ((List.mem_inits _ _).2 List.nil_prefix)
    exact hout B A older hfirst hsmall

/-- Large swings are at least `minPct` of the earlier price. -/
theorem apart_of_large (hmin : 0 < minPct) (h : ¬ tooSmall minPct A B) : Apart minPct A B := by
  have hbase : 0 < max |A.price| (1 / 10 ^ 9) := lt_max_of_lt_right (by decide +kernel)
  have hle : A.price ≤ max |A.price| (1 / 10 ^ 9) := (le_abs_self _).trans (le_max_left _ _)
  simp only [tooSmall, decide_eq_true_eq, not_lt] at h
  calc minPct * A.price
    _ ≤ minPct * max |A.price| (1 / 10 ^ 9) := mul_le_mul_of_nonneg_left hle hmin.le
    _ ≤ |B.price - A.price| := (le_div_iff₀ hbase).1 h

/-- **The filter** keeps its promise on pivots that alternate exactly when every candidate that closes in on the pivot
before the cancelled swing is gone at some later point. -/
theorem filterProminence_iff (ps : List (ConfirmedPivot ℚ)) (minPct : ℚ) (halternate : ps.IsChain Alternate)
    (hmin : 0 < minPct) : Filtered minPct ps (filterProminence ps minPct) ↔ Recovers minPct [] ps := by
  have hready : Ready [] ps := ⟨List.isChain_nil, halternate, fun A hA => absurd hA (Option.not_mem_none A)⟩
  have hsublist : (filterProminence ps minPct).Sublist ps := by
    have hall := (absorbAll_sublist minPct [] ps).reverse
    rwa [List.append_nil, List.reverse_reverse, ← filterProminence_eq hmin] at hall
  have hkept : (filterProminence ps minPct).IsChain Alternate := by
    rw [filterProminence_eq hmin, List.isChain_reverse]
    exact hready.absorbAll
  have hlarge : (filterProminence ps minPct).IsChain (fun A B => ¬ tooSmall minPct A B) ↔ Recovers minPct [] ps := by
    rw [filterProminence_eq hmin, List.isChain_reverse]
    exact large_iff_recovers hready List.isChain_nil
  rw [← hlarge]
  constructor
  · exact fun h => (filterProminence_fixed hmin).1 h.fixed
  · exact fun h => ⟨hsublist, hkept, h.imp fun A B => apart_of_large hmin, (filterProminence_fixed hmin).2 h⟩

/-- Low 100, high 93, low 104, high 105: the zigzag skips the bar at 103 and 90. -/
def closingBars : List (Sample ℚ) :=
  [⟨0, 0, 102, 101, 1⟩, ⟨1, 60, 101, 100, 1⟩, ⟨2, 120, 103, 90, 1⟩, ⟨3, 180, 92, 91, 1⟩, ⟨4, 240, 93, 92, 1⟩,
    ⟨5, 300, 110, 91, 1⟩, ⟨6, 360, 106, 105, 1⟩, ⟨7, 420, 105, 104, 1⟩, ⟨8, 480, 105, 209 / 2, 1⟩]

theorem high_closes_in : (computePivots closingBars 2).IsChain Alternate ∧ (∀ p ∈ computePivots closingBars 2, 0 < p.price)
    ∧ (filterProminence (computePivots closingBars 2) (6 / 100)).map (fun p => (p.kind, p.price)) =
      [(PivotKind.low, 100), (PivotKind.high, 105)]
    ∧ ¬ Filtered (6 / 100) (computePivots closingBars 2) (filterProminence (computePivots closingBars 2) (6 / 100)) :=
  ⟨by decide +kernel, by decide +kernel, by decide +kernel, fun h => absurd h.fixed (by decide +kernel)⟩

/-- A low at 103 takes the high away again. -/
theorem high_gone_again : Filtered (6 / 100) (computePivots (closingBars ++ [⟨9, 540, 104, 103, 1⟩]) 2)
    (filterProminence (computePivots (closingBars ++ [⟨9, 540, 104, 103, 1⟩]) 2) (6 / 100)) :=
  (filterProminence_iff _ _ (by decide +kernel) (by decide +kernel)).2 (by decide +kernel)

/-! ## Highs above the lows -/

theorem Ordered.alternate (h : Ordered A B) : Alternate A B := by
  unfold Ordered at h
  unfold Alternate
  split at h <;> simp_all [PivotKind.opposite]

/-- A pivot that is more extreme is in order too, and farther from the one before. -/
theorem Ordered.moreExtreme {before prev : ConfirmedPivot ℚ} (h : Ordered before prev) (hkind : prev.kind = cand.kind)
    (hmore : Pivots.moreExtreme cand.kind cand.price prev.price) :
    Ordered before cand ∧ |prev.price - before.price| ≤ |cand.price - before.price| := by
  have hopposite : prev.kind = before.kind.opposite := h.alternate
  rw [ordered_iff hopposite] at h
  rw [ordered_iff (hkind.symm.trans hopposite)]
  rw [← hkind, hopposite] at hmore
  cases hk : before.kind <;>
    simp only [hk, PivotKind.opposite, Pivots.moreExtreme, decide_eq_true_eq, decide_eq_false_iff_not, not_lt] at h hmore ⊢
  · rw [abs_of_nonpos (sub_nonpos.2 h), abs_of_nonpos (sub_nonpos.2 (hmore.le.trans h))]
    exact ⟨hmore.le.trans h, neg_le_neg (sub_le_sub_right hmore.le _)⟩
  · rw [abs_of_nonneg (sub_nonneg.2 h), abs_of_nonneg (sub_nonneg.2 (h.trans hmore.le))]
    exact ⟨h.trans hmore.le, sub_le_sub_right hmore.le _⟩

/-- Farther from a pivot is not too close to it either. -/
theorem tooSmall_anti (h : |A.price - cand.price| ≤ |B.price - cand.price|) (hlarge : ¬ tooSmall minPct cand A) :
    ¬ tooSmall minPct cand B := by
  have hbase : 0 < max |cand.price| (1 / 10 ^ 9) := lt_max_of_lt_right (by decide +kernel)
  simp only [tooSmall, decide_eq_true_eq, not_lt] at hlarge ⊢
  exact hlarge.trans (div_le_div_of_nonneg_right h hbase.le)

/-- In place of a pivot of its kind that is at least as extreme the next one is in order too. -/
theorem Ordered.of_not_moreExtreme {prev : ConfirmedPivot ℚ} (h : Ordered cand B) (hkind : prev.kind = cand.kind)
    (hless : Pivots.moreExtreme cand.kind cand.price prev.price = false) : Ordered prev B := by
  have hopposite : B.kind = cand.kind.opposite := h.alternate
  rw [ordered_iff hopposite] at h
  rw [ordered_iff (hkind ▸ hopposite), hkind]
  cases hk : cand.kind <;>
    simp only [hk, Pivots.moreExtreme, decide_eq_false_iff_not, not_lt, gt_iff_lt] at h hless ⊢
  exacts [h.trans hless, hless.trans h]

/-- **One candidate** where the highs are above the lows: it does not close in. -/
theorem ordered_absorb (hout : out.IsChain fun B A => Ordered A B ∧ ¬ tooSmall minPct A B)
    (hjoin : ∀ A ∈ out.head?, Ordered A cand) :
    ¬ Closes minPct cand out
    ∧ (absorb minPct cand out).IsChain (fun B A => Ordered A B ∧ ¬ tooSmall minPct A B)
    ∧ ∀ A ∈ (absorb minPct cand out).head?, ∀ B, Ordered cand B → Ordered A B := by
  have hkept : out.IsChain fun B A => Alternate A B := hout.imp fun B A h => h.1.alternate
  have hopposite : ∀ A ∈ out.head?, Alternate A cand := fun A hA => (hjoin A hA).alternate
  refine ⟨fun hcloses => ?_, ?_⟩
  · obtain ⟨last, prev, before, older, rfl, -, hmore, hsmall⟩ := hcloses.out_eq
    obtain ⟨hprev, hrest⟩ := List.isChain_cons.1 hout
    obtain ⟨hordered, hlarge⟩ := (List.isChain_cons.1 hrest).1 before rfl
    have hkind : prev.kind = cand.kind := (hprev prev rfl).1.alternate.kind_eq (hopposite last rfl)
    exact tooSmall_anti (hordered.moreExtreme hkind hmore).2 hlarge hsmall
  · rcases absorb_cases minPct hkept hopposite with
      ⟨hlarge, heq⟩ | ⟨last, -, -, heq⟩ | ⟨last, prev, older, rfl, -, hkind, heq⟩
    · rw [heq]
      refine ⟨List.isChain_cons.2 ⟨fun A hA => ⟨hjoin A hA, hlarge A hA⟩, hout⟩, fun A hA B hB => ?_⟩
      exact Option.some.inj hA ▸ hB
    · rw [heq]
      exact ⟨List.isChain_nil, fun A hA => absurd hA (Option.not_mem_none A)⟩
    · rw [heq]
      obtain ⟨hprev, holder⟩ := List.isChain_cons.1 (List.isChain_cons.1 hout).2
      split
      next hmore =>
        refine ⟨List.isChain_cons.2 ⟨fun A hA => ?_, holder⟩, fun A hA B hB => Option.some.inj hA ▸ hB⟩
        obtain ⟨hordered, hlarge⟩ := hprev A hA
        obtain ⟨hordered', hfar⟩ := hordered.moreExtreme hkind hmore
        exact ⟨hordered', tooSmall_anti hfar hlarge⟩
      next hless =>
        refine ⟨List.isChain_cons.2 ⟨hprev, holder⟩, fun A hA B hB => ?_⟩
        exact Option.some.inj hA ▸ hB.of_not_moreExtreme hkind (Bool.eq_false_iff.2 hless)

theorem recovers_run (hps : ps.IsChain Ordered) (hout : out.IsChain fun B A => Ordered A B ∧ ¬ tooSmall minPct A B)
    (hjoin : ∀ A ∈ out.head?, ∀ p ∈ ps.head?, Ordered A p) : Recovers minPct out ps := by
  induction ps generalizing out with
  | nil => trivial
  | cons cand ps ih =>
    obtain ⟨hnext, hps⟩ := List.isChain_cons.1 hps
    obtain ⟨hnot, hout', hhead⟩ := ordered_absorb hout fun A hA => hjoin A hA cand rfl
    exact ⟨fun hcloses => absurd hcloses hnot, ih hps hout' fun A hA p hp => hhead A hA p (hnext p hp)⟩

/-- **Where no high is below a low beside it**, no candidate closes in. -/
theorem recovers_of_ordered (minPct : ℚ) (hps : ps.IsChain Ordered) : Recovers minPct [] ps :=
  recovers_run hps List.isChain_nil fun A hA => absurd hA (Option.not_mem_none A)

end Qtss.Pivots
