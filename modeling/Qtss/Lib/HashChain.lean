import Mathlib.Data.List.Forall2
import Mathlib.Data.List.Induction
import Mathlib.Data.List.Nodup
import Mathlib.Data.Option.Basic
/-!
# Hash chains

A row of a log carries a digest of its own and that of the row before it. Two facts carry the uses of such logs:

* the last digest commits to the rows (`Linked.agree_or_clash`): logs that end in the same digest are the same, row by row,
  but for two rows of one digest that were sealed from different things;
* a log each of whose rows points at an earlier one, with digests of their own, is linked exactly when no two rows point
  at the same one (`linked_iff_nodup`): what goes wrong with writers that do not wait for each other is a fork.
-/
namespace HashChain

/-- What the rows of a log carry, and how a digest is made of the digest before it and the contents. -/
structure Scheme (ρ δ α : Type*) where
  prev : ρ → Option δ
  digest : ρ → δ
  content : ρ → α
  hash : Option δ → α → δ

variable {ρ δ α : Type*} (c : Scheme ρ δ α) {start : Option δ} {rs a b : List ρ} {r r' : ρ}

def Sealed (r : ρ) : Prop := c.digest r = c.hash (c.prev r) (c.content r)

/-- From the digest `start`, each row points at the one before it. -/
def Linked : Option δ → List ρ → Prop
  | _, [] => True
  | start, r :: rs => c.prev r = start ∧ Sealed c r ∧ Linked (some (c.digest r)) rs

/-- The digest that the next row has to point at. -/
def tip (start : Option δ) (rs : List ρ) : Option δ := (rs.getLast?.map c.digest).or start

/-- Sealed from the same things. -/
def Same (r r' : ρ) : Prop := c.prev r = c.prev r' ∧ c.content r = c.content r'

/-- Each row points at the start or at a row before it. -/
def PointsBack : List ρ → Prop := fun rs => ∀ pre r post, rs = pre ++ r :: post →
  c.prev r ∈ none :: pre.map (some ∘ c.digest)

variable {c}

@[simp] theorem tip_nil : tip c start [] = start := by simp [tip]

@[simp] theorem tip_concat : tip c start (rs ++ [r]) = some (c.digest r) := by simp [tip]

theorem tip_cons : tip c start (r :: rs) = tip c (some (c.digest r)) rs := by
  rcases List.eq_nil_or_concat rs with rfl | ⟨rs, r', rfl⟩
  · simp [tip]
  · rw [List.concat_eq_append, tip_concat, ← List.cons_append, tip_concat]

theorem linked_append : Linked c start (a ++ b) ↔ Linked c start a ∧ Linked c (tip c start a) b := by
  induction a generalizing start with
  | nil => simp [Linked]
  | cons r a ih => rw [List.cons_append, Linked, Linked, ih, tip_cons, and_assoc, and_assoc]

theorem linked_concat : Linked c start (rs ++ [r]) ↔ Linked c start rs ∧ c.prev r = tip c start rs ∧ Sealed c r := by
  rw [linked_append, Linked, Linked, and_true]

theorem Linked.sealed (h : Linked c start rs) : ∀ r ∈ rs, Sealed c r := by
  induction rs generalizing start with
  | nil => simp
  | cons r rs ih => exact List.forall_mem_cons.2 ⟨h.2.1, ih h.2.2⟩

/-- A row may stand for another one of the same digests and contents. -/
theorem Linked.congr {r r' : ρ} (h : Linked c start (a ++ r :: b)) (hprev : c.prev r' = c.prev r)
    (hdigest : c.digest r' = c.digest r) (hcontent : c.content r' = c.content r) : Linked c start (a ++ r' :: b) := by
  obtain ⟨ha, hr, hsealed, hb⟩ := linked_append.1 h
  refine linked_append.2 ⟨ha, hprev.trans hr, ?_, ?_⟩
  · rw [Sealed, hprev, hdigest, hcontent]
    exact hsealed
  · rw [hdigest]
    exact hb

/-- All but the last digest are pointed at, each by the row after it. -/
theorem Linked.map_prev (h : Linked c start (rs ++ [r])) :
    (rs ++ [r]).map c.prev = start :: rs.map (some ∘ c.digest) := by
  induction rs generalizing start with
  | nil => simpa using h.1
  | cons r' rs ih =>
    rw [List.cons_append, List.map_cons, ih h.2.2, h.1, List.map_cons]
    rfl

/-! ## Commitment -/

/-- **The last digest commits to the log.** -/
theorem Linked.agree_or_clash (ha : Linked c none a) (hb : Linked c none b) (htip : tip c none a = tip c none b) :
    List.Forall₂ (Same c) a b ∨ ∃ r ∈ a, ∃ r' ∈ b, c.digest r = c.digest r' ∧ ¬ Same c r r' := by
  induction a using List.reverseRecOn generalizing b with
  | nil =>
    rcases List.eq_nil_or_concat b with rfl | ⟨b, r', rfl⟩
    · exact .inl .nil
    · simp at htip
  | append_singleton a r ih =>
    rcases List.eq_nil_or_concat b with rfl | ⟨b, r', rfl⟩
    · simp at htip
    rw [List.concat_eq_append] at hb htip ⊢
    obtain ⟨ha, hr, -⟩ := linked_concat.1 ha
    obtain ⟨hb, hr', -⟩ := linked_concat.1 hb
    have hdigest : c.digest r = c.digest r' := by simpa using htip
    by_cases hsame : Same c r r'
    · have htip' : tip c none a = tip c none b := hr.symm.trans (hsame.1.trans hr')
      rcases ih ha hb htip' with hagree | ⟨x, hx, y, hy, hclash⟩
      · exact .inl (List.rel_append hagree (.cons hsame .nil))
      · exact .inr ⟨x, List.mem_append_left _ hx, y, List.mem_append_left _ hy, hclash⟩
    · exact .inr ⟨r, by simp, r', by simp, hdigest, hsame⟩

/-! ## Forks -/

theorem PointsBack.init (h : PointsBack c (rs ++ [r])) : PointsBack c rs := by
  intro pre r' post hsplit
  exact h pre r' (post ++ [r]) (by rw [hsplit, List.append_assoc, List.cons_append])

theorem PointsBack.last (h : PointsBack c (rs ++ [r])) : c.prev r ∈ none :: rs.map (some ∘ c.digest) := h rs r [] rfl

theorem PointsBack.concat (h : PointsBack c rs) (hr : c.prev r ∈ none :: rs.map (some ∘ c.digest)) :
    PointsBack c (rs ++ [r]) := by
  intro pre r' post hsplit
  rcases List.eq_nil_or_concat post with rfl | ⟨post, last, rfl⟩
  · obtain ⟨rfl, hlast⟩ := List.append_inj' hsplit rfl
    obtain rfl := List.singleton_inj.1 hlast
    exact hr
  · rw [List.concat_eq_append, ← List.cons_append, ← List.append_assoc] at hsplit
    exact h pre r' post (List.append_inj' hsplit rfl).1

/-- **A linked log has no fork.** -/
theorem Linked.nodup_prev (h : Linked c none rs) (hdigest : (rs.map c.digest).Nodup) : (rs.map c.prev).Nodup := by
  rcases List.eq_nil_or_concat rs with rfl | ⟨rs, r, rfl⟩
  · exact List.nodup_nil
  rw [List.concat_eq_append] at h hdigest ⊢
  rw [h.map_prev, List.nodup_cons]
  constructor
  · simp
  · rw [← List.map_map]
    rw [List.map_append] at hdigest
    exact (List.Nodup.of_append_left hdigest).map (Option.some_injective δ)

theorem linked_of_nodup (hback : PointsBack c rs) (hsealed : ∀ r ∈ rs, Sealed c r) (hprev : (rs.map c.prev).Nodup) :
    Linked c none rs := by
  induction rs using List.reverseRecOn with
  | nil => trivial
  | append_singleton rs r ih =>
    have hinit : Linked c none rs := by
      refine ih hback.init (fun x hx => hsealed x (List.mem_append_left _ hx)) ?_
      rw [List.map_append] at hprev
      exact List.Nodup.of_append_left hprev
    refine linked_concat.2 ⟨hinit, ?_, hsealed r (by simp)⟩
    -- all that `r` may point at is pointed at already, but for the last digest
    have hfresh : c.prev r ∉ rs.map c.prev := by
      rw [List.map_append, List.nodup_append] at hprev
      exact fun hmem => hprev.2.2 _ hmem _ (by simp) rfl
    have hmem := hback.last
    rcases List.eq_nil_or_concat rs with rfl | ⟨rs, r', rfl⟩
    · simpa using hmem
    rw [List.concat_eq_append] at hinit hfresh hmem ⊢
    rw [hinit.map_prev] at hfresh
    rw [List.map_append, ← List.cons_append] at hmem
    rcases List.mem_append.1 hmem with hmem | hmem
    · exact absurd hmem hfresh
    · rw [tip_concat]
      simpa using hmem

/-- **Forks are all that can go wrong** with rows that point back. -/
theorem linked_iff_nodup (hback : PointsBack c rs) (hsealed : ∀ r ∈ rs, Sealed c r) (hdigest : (rs.map c.digest).Nodup) :
    Linked c none rs ↔ (rs.map c.prev).Nodup :=
  ⟨fun h => h.nodup_prev hdigest, linked_of_nodup hback hsealed⟩

end HashChain
