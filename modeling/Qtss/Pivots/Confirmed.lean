import Qtss.Pivots.Levels
/-
# What the zigzag has confirmed

The head may still move ("Only pivots locked in by a subsequent opposite-direction pivot are safe to persist",
pivot.rs:119), so `confirmed` are the pivots under it. Once confirmed a pivot stays: more bars only add to the end
(`confirmed_mono`). The pivots come from bars of the tape, in its order, and their kinds alternate (`read_computePivots`).
-/

namespace Qtss.Pivots

variable {P : Type*}

section confirmed
variable [LinearOrder P] [Sub P] [Zero P]

/-- `&all[..all.len() - 1]`, or nothing (pivot.rs:122). -/
def confirmed (bars : List (Sample P)) (length : ℕ) : List (ConfirmedPivot P) := (computePivots bars length).dropLast

variable {z : ZigZag P} {s : Sample P} {k : PivotKind} {bars : List (Sample P)}

/-! ## More bars -/

omit [LinearOrder P] [Sub P] [Zero P] in
/-- Whatever a new head replaces, it is not a confirmed pivot. -/
theorem ZigZag.dropLast_prefix_base : z.pivots.dropLast <+: z.base k := by
  unfold base
  split
  next => exact List.prefix_rfl
  next => exact List.dropLast_prefix _

theorem ZigZag.dropLast_prefix_push (z : ZigZag P) (s : Sample P) :
    z.pivots.dropLast <+: (z.push s).1.pivots.dropLast := by
  by_cases htakes : ∃ k, z.Takes s k
  · obtain ⟨k, hk⟩ := htakes
    rw [(push_of_takes hk).1, List.dropLast_concat]
    exact dropLast_prefix_base
  · have hsame := (push_of_not_takes fun k hk => htakes ⟨k, hk⟩).1
    exact hsame ▸ List.prefix_rfl

theorem ZigZag.dropLast_prefix_run (z : ZigZag P) (more : List (Sample P)) :
    z.pivots.dropLast <+: (more.foldl (fun z s => (z.push s).1) z).pivots.dropLast := by
  induction more generalizing z with
  | nil => exact List.prefix_rfl
  | cons s more ih => exact (z.dropLast_prefix_push s).trans (ih _)

/-- **A confirmed pivot stays.** -/
theorem confirmed_mono {seen : List (Sample P)} (h : seen <+: bars) (length : ℕ) :
    confirmed seen length <+: confirmed bars length := by
  obtain ⟨more, rfl⟩ := h
  rw [confirmed, confirmed, computePivots, computePivots, List.foldl_append]
  exact ZigZag.dropLast_prefix_run _ more

/-! ## Where the pivots are -/

/-- Two pivots in a row. -/
def Alternate (A B : ConfirmedPivot P) : Prop := B.kind = A.kind.opposite

/-- The detector has read these bars, which are numbered from 0. -/
structure ZigZag.Read (bars : List (Sample P)) (z : ZigZag P) : Prop where
  fed : z.Fed bars.length
  source : ∀ p ∈ z.pivots, ∃ b ∈ bars, Source p b
  sign : ∀ p ∈ z.pivots, p.direction.sign = p.kind.dir
  alternate : z.pivots.IsChain Alternate

theorem ZigZag.sign_pivotOf : (z.pivotOf s k).direction.sign = k.dir := by
  unfold pivotOf
  simp only
  split <;> cases k <;> rfl

/-- A new head is of the other kind than the pivot under it. -/
theorem ZigZag.Read.alternate_base (h : z.Read bars) : (z.base k ++ [z.pivotOf s k]).IsChain Alternate := by
  have hother : ∀ {A : ConfirmedPivot P}, A.kind ≠ k → Alternate A (z.pivotOf s k) := by
    intro A hA
    unfold Alternate
    cases hkA : A.kind <;> cases k <;> simp_all [pivotOf, PivotKind.opposite]
  rcases h.fed.base_cases k with ⟨older, A, hz, hkind, -, hbase⟩ | ⟨hlast, hbase⟩
  · have hchain := h.alternate
    rw [hz, List.isChain_append] at hchain
    rw [hbase]
    refine List.isChain_append.2 ⟨hchain.1, List.isChain_singleton _, fun B hB C hC => ?_⟩
    obtain rfl := Option.some.inj hC
    have hAB : A.kind = B.kind.opposite := hchain.2.2 B hB A rfl
    refine hother fun hBk => ?_
    rw [hkind, hBk] at hAB
    cases k <;> cases hAB
  · rw [hbase]
    refine List.isChain_append.2 ⟨h.alternate, List.isChain_singleton _, fun B hB C hC => ?_⟩
    obtain rfl := Option.some.inj hC
    exact hother (hlast B hB)

/-- **One bar.** -/
theorem ZigZag.Read.push (h : z.Read bars) (hs : s.barIndex = bars.length) : (z.push s).1.Read (bars ++ [s]) where
  fed := by
    rw [List.length_append]
    exact fed_push h.fed hs
  source p hp := by
    rcases h.fed.mem_push.1 hp with ⟨hold, -⟩ | ⟨k, -, rfl⟩
    · obtain ⟨b, hb, hsource⟩ := h.source p hold
      exact ⟨b, List.mem_append_left _ hb, hsource⟩
    · exact ⟨s, List.mem_append_right _ (List.mem_singleton_self s), pivotOf_source⟩
  sign p hp := by
    rcases h.fed.mem_push.1 hp with ⟨hold, -⟩ | ⟨k, -, rfl⟩
    · exact h.sign p hold
    · exact sign_pivotOf
  alternate := by
    by_cases htakes : ∃ k, z.Takes s k
    · obtain ⟨k, hk⟩ := htakes
      rw [(push_of_takes hk).1]
      exact h.alternate_base
    · rw [(push_of_not_takes fun k hk => htakes ⟨k, hk⟩).1]
      exact h.alternate

omit [LinearOrder P] [Sub P] [Zero P] in
theorem read_withLength (length : ℕ) : (ZigZag.withLength length : ZigZag P).Read [] where
  fed := fed_withLength length 0
  source _ hp := nomatch hp
  sign _ hp := nomatch hp
  alternate := List.isChain_nil

/-- The bars are numbered from `i`. -/
def NumberedFrom (i : ℕ) (bars : List (Sample P)) : Prop := bars.map (·.barIndex) = List.range' i bars.length

omit [LinearOrder P] [Sub P] [Zero P] in
theorem numberedFrom_zipIdx {α : Type*} (bars : List α) {f : α × ℕ → Sample P} (hf : ∀ p, (f p).barIndex = p.2) :
    NumberedFrom 0 (bars.zipIdx.map f) := by
  rw [NumberedFrom, List.map_map, List.length_map, List.length_zipIdx, ← List.zipIdx_map_snd 0 bars]
  exact List.map_congr_left fun p _ => hf p

theorem ZigZag.Read.run (h : z.Read bars) (more : List (Sample P)) (hmore : NumberedFrom bars.length more) :
    (more.foldl (fun z s => (z.push s).1) z).Read (bars ++ more) := by
  induction more generalizing bars z with
  | nil => rwa [List.append_nil]
  | cons s more ih =>
    obtain ⟨hs, htail⟩ := List.cons.inj hmore
    rw [List.append_cons]
    refine ih (h.push hs) ?_
    rw [NumberedFrom, htail, List.length_append, List.length_singleton]

theorem read_computePivots (bars : List (Sample P)) (length : ℕ) (hbars : NumberedFrom 0 bars) :
    (bars.foldl (fun z s => (z.push s).1) (ZigZag.withLength length)).Read bars :=
  (read_withLength length).run bars hbars

/-! ## Their order -/

omit [LinearOrder P] [Sub P] [Zero P] in
/-- The number of a bar tells its time. -/
theorem time_lt_of_barIndex_lt (hbars : NumberedFrom 0 bars) (hasc : bars.Pairwise (·.time < ·.time)) {a b : Sample P}
    (ha : a ∈ bars) (hb : b ∈ bars) (hlt : a.barIndex < b.barIndex) : a.time < b.time := by
  have hindex : bars.Pairwise (·.barIndex < ·.barIndex) := by
    rw [← List.pairwise_map, hbars]
    exact List.pairwise_lt_range'
  have hforth : bars.Pairwise fun a b => a.barIndex < b.barIndex → a.time < b.time := by
    refine hasc.imp ?_
    exact fun h _ => h
  have hback : bars.Pairwise fun a b => b.barIndex < a.barIndex → b.time < a.time :=
    hindex.imp fun h h' => absurd h' h.asymm
  exact hforth.forall_of_forall_of_flip (fun _ _ h => absurd h (lt_irrefl _)) hback ha hb hlt

/-- **The pivots** are in the order of their bars and of their times. -/
theorem computePivots_sorted (length : ℕ) (hbars : NumberedFrom 0 bars) (hasc : bars.Pairwise (·.time < ·.time)) :
    (computePivots bars length).Pairwise fun p q => p.barIndex < q.barIndex ∧ p.time < q.time := by
  have h := read_computePivots bars length hbars
  refine h.fed.sorted.imp_of_mem fun hp hq hlt => ⟨hlt, ?_⟩
  obtain ⟨a, ha, hindex, htime, -⟩ := h.source _ hp
  obtain ⟨b, hb, hindex', htime', -⟩ := h.source _ hq
  rw [htime, htime']
  exact time_lt_of_barIndex_lt hbars hasc ha hb (hindex ▸ hindex' ▸ hlt)

end confirmed

end Qtss.Pivots
