import Qtss.Engine.PivotWriter
/-
# The swing tags of the pivot writer

"… with an HH/HL/LL/LH swing tag relative to the previous same-direction pivot" (pivot.rs:5). The loop keeps the pivot
before, whatever its direction (`prev_same`, pivot.rs:133), and the kinds of the pivots alternate, so that what it
compares with is never of the same direction: no row has a tag (`swingTag_slotRows`). That is what is documented only
where there is nothing to compare with (`tagged_iff`).
-/

namespace Qtss.Engine
open Pivots

/-- What the header says: against the last pivot of the kind among the earlier ones. -/
def documentedTag (earlier : List (ConfirmedPivot ℚ)) (cp : ConfirmedPivot ℚ) : Option String :=
  (earlier.reverse.find? (·.kind = cp.kind)).map fun prev =>
    match cp.kind with
    | .high => if cp.price ≥ prev.price then "HH" else "LH"
    | .low => if cp.price ≤ prev.price then "LL" else "HL"

/-- The rows that a tick writes of a slot have the tags of the header: from fewer than ten bars none are written
(pivot.rs:99). -/
def Tagged (length : ℕ) (bars : List MarketBarRow) : Prop :=
  10 ≤ bars.length → ∀ i cp, (confirmed (samplesOf bars) length)[i]? = some cp →
    ∀ r, (slotRows length bars)[i]? = some r →
      r.2.swingTag = documentedTag ((confirmed (samplesOf bars) length).take i) cp

variable {length : ℕ} {bars : List MarketBarRow}

theorem confirmed_kinds : (confirmed (samplesOf bars) length).IsChain Alternate :=
  (read_computePivots (samplesOf bars) length (numberedFrom_samplesOf bars)).alternate.dropLast

theorem length_pivotRows (prev : Option (ℤ × ℚ)) (cps : List (ConfirmedPivot ℚ)) :
    (pivotRows prev cps).length = cps.length := by
  rw [← List.length_map (·.1), keys_pivotRows, List.length_map]

/-- The third pivot is of the kind of the first, and there is a tag for it. -/
theorem documentedTag_third {a b c : ConfirmedPivot ℚ} (hab : Alternate a b) (hbc : Alternate b c) :
    documentedTag [a, b] c ≠ none := by
  have hb : b.kind ≠ c.kind := by
    intro h
    rw [Alternate, ← h] at hbc
    cases hkind : b.kind <;> rw [hkind] at hbc <;> cases hbc
  have ha : a.kind = c.kind := by
    rw [hbc, hab]
    cases a.kind <;> rfl
  simp [documentedTag, hb, ha]

theorem documentedTag_second {a b : ConfirmedPivot ℚ} (hab : Alternate a b) : documentedTag [a] b = none := by
  have ha : a.kind ≠ b.kind := by
    intro h
    rw [Alternate, ← h] at hab
    cases hkind : a.kind <;> rw [hkind] at hab <;> cases hab
  simp [documentedTag, ha]

/-- **The swing tags** are those of the header exactly where no pivot has an earlier one of its kind: nothing is
written, or at most two pivots are confirmed. -/
theorem tagged_iff (length : ℕ) (bars : List MarketBarRow) :
    Tagged length bars ↔ bars.length < 10 ∨ (confirmed (samplesOf bars) length).length ≤ 2 := by
  have hkinds : (confirmed (samplesOf bars) length).IsChain Alternate := confirmed_kinds
  have hnone : ∀ (i : ℕ) (r : DateTime × PivotRow), (slotRows length bars)[i]? = some r → r.2.swingTag = none :=
    fun i r hr => swingTag_slotRows (List.mem_of_getElem? hr)
  have hlength : (slotRows length bars).length = (confirmed (samplesOf bars) length).length := length_pivotRows _ _
  unfold Tagged
  generalize confirmed (samplesOf bars) length = cps at hkinds hlength ⊢
  constructor
  · intro h
    rw [or_iff_not_imp_left, not_lt]
    intro hbars
    match cps with
    | [] | [_] | [_, _] => simp
    | a :: b :: c :: rest =>
      obtain ⟨hab, hbc, -⟩ := List.isChain_cons_cons.1 hkinds |>.imp id List.isChain_cons_cons.1
      have htwo : 2 < (slotRows length bars).length := by
        rw [hlength]
        simp
      have htag := h hbars 2 c rfl _ (List.getElem?_eq_getElem htwo)
      rw [hnone 2 _ (List.getElem?_eq_getElem htwo)] at htag
      exact absurd htag.symm (documentedTag_third hab hbc)
  · rintro (hfew | htwo) hbars i cp hcp r hr
    · omega
    · rw [hnone i r hr]
      match cps, i with
      | [], _ => cases hcp
      | _ :: _, 0 => rfl
      | [a, b], 1 =>
        obtain rfl := Option.some.inj hcp
        exact (documentedTag_second (List.isChain_cons_cons.1 hkinds).1).symm
      | [_], i + 1 => cases hcp
      | [_, _], i + 2 => cases hcp
      | _ :: _ :: _ :: _, _ => simp at htwo

/-- Ten bars that go up by 2 and down by 1 in turn. -/
def risingBars : List MarketBarRow :=
  (List.range 10).map fun k => if k % 2 = 0 then ⟨k, 11 + k, 10 + k, 10 + k, 1⟩ else ⟨k, 13 + k, 12 + k, 13 + k, 1⟩

/-- The second high, at 16 after 14, is a higher high, and its row has no tag. -/
theorem rising_untagged : ¬ Tagged 2 risingBars
    ∧ (slotRows 2 risingBars)[2]?.map (fun r => (r.2.barIndex, r.2.direction, r.2.price, r.2.swingTag)) =
      some (3, 2, 16, none) := by
  refine ⟨fun h => ?_, by decide +kernel⟩
  obtain ⟨cp, hcp⟩ : ∃ cp, (confirmed (samplesOf risingBars) 2)[2]? = some cp :=
    Option.isSome_iff_exists.1 (by decide +kernel)
  obtain ⟨r, hr⟩ : ∃ r, (slotRows 2 risingBars)[2]? = some r := Option.isSome_iff_exists.1 (by decide +kernel)
  have hthird : (slotRows 2 risingBars)[2]?.bind (·.2.swingTag) =
      (confirmed (samplesOf risingBars) 2)[2]?.bind (documentedTag ((confirmed (samplesOf risingBars) 2).take 2)) := by
    rw [hcp, hr]
    exact h (by decide) 2 cp hcp r hr
  exact absurd hthird (by decide +kernel)

end Qtss.Engine
