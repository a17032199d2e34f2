import Qtss.Pivots.ZigZag
/-
# Two detectors on the same bars (`qtss-pivots/src/engine.rs:1-11`)

"A bar that is the extremum of a ±L_big window is necessarily also the extremum of any smaller
±L_small window at the same index." That holds of the window (`Wider.atExtreme`), and not of the
detector: the shorter window may see the bar at both extremes and skip it, its head may be more
extreme, and it may move its head on from a pivot that the wider one still holds.
`covers_push_iff` says that nothing else comes between the two.
-/

namespace Qtss.Pivots
open Window

variable {P : Type*}

def ConfirmedPivot.key (p : ConfirmedPivot P) : ℕ × PivotKind := (p.barIndex, p.kind)

/-- Every pivot of `hi` is one of `lo`, at the same bar and of the same kind. -/
def ZigZag.Covers (lo hi : ZigZag P) : Prop :=
  ∀ B ∈ hi.pivots, ∃ A ∈ lo.pivots, A.key = B.key

/-- `hi` has read the same bars as `lo` through a longer window. -/
structure ZigZag.Wider (lo hi : ZigZag P) : Prop where
  length : lo.length ≤ hi.length
  window : lo.window = hi.window.rtake lo.length
  price : ∀ A ∈ lo.pivots, ∀ B ∈ hi.pivots, A.key = B.key → A.price = B.price

/-- The detector has read bars under the index `i`. -/
structure ZigZag.Fed (z : ZigZag P) (i : ℕ) : Prop where
  fresh : z.pivots = [] → z.dir = 0
  head : ∀ A ∈ z.pivots.getLast?, z.dir = A.kind.dir
  full : z.pivots ≠ [] → z.length ≤ z.window.length
  old : ∀ p ∈ z.pivots, p.barIndex < i
  sorted : z.pivots.Pairwise (·.barIndex < ·.barIndex)

theorem fed_withLength (length i : ℕ) : (ZigZag.withLength length : ZigZag P).Fed i where
  fresh _ := rfl
  head _ hA := nomatch hA
  full h := absurd rfl h
  old _ hp := nomatch hp
  sorted := List.Pairwise.nil

theorem wider_withLength {m n : ℕ} (h : m ≤ n) :
    (ZigZag.withLength m : ZigZag P).Wider (ZigZag.withLength n) where
  length := max_le_max_right 1 h
  window := (List.rtake_nil _).symm
  price _ hA := nomatch hA

namespace ZigZag

variable {z lo hi : ZigZag P} {i : ℕ} {s : Sample P} {k : PivotKind}

theorem Fed.mono {j : ℕ} (h : z.Fed i) (hij : i ≤ j) : z.Fed j :=
  { h with old := fun p hp => (h.old p hp).trans_le hij }

/-- The head has the largest index. -/
theorem Fed.le_head (h : z.Fed i) {A p : ConfirmedPivot P} (hA : A ∈ z.pivots.getLast?)
    (hp : p ∈ z.pivots) : p = A ∨ p.barIndex < A.barIndex := by
  obtain ⟨older, hz⟩ := List.getLast?_eq_some_iff.1 hA
  have hsorted := h.sorted
  rw [hz, List.pairwise_append] at hsorted
  rw [hz, List.mem_append, List.mem_singleton] at hp
  exact hp.symm.imp id fun hp => hsorted.2.2 p hp A (List.mem_singleton_self A)

/-- A new head of kind `k` replaces a head of that kind, and goes on top of any other. -/
theorem Fed.base_cases (h : z.Fed i) (k : PivotKind) :
    (∃ older A, z.pivots = older ++ [A] ∧ A.kind = k ∧ z.dir = k.dir ∧ z.base k = older)
    ∨ (∀ A ∈ z.pivots.getLast?, A.kind ≠ k) ∧ z.base k = z.pivots := by
  unfold base
  by_cases hd : z.dir = k.dir
  · rw [if_pos hd]
    rcases z.pivots.eq_nil_or_concat' with hnil | ⟨older, A, hz⟩
    · right
      simp [hnil]
    · left
      have hhead : A ∈ z.pivots.getLast? := by rw [hz, List.getLast?_concat]; rfl
      refine ⟨older, A, hz, dir_injective ((h.head A hhead).symm.trans hd), hd, ?_⟩
      rw [hz, List.dropLast_concat]
  · right
    rw [if_neg hd]
    exact ⟨fun A hA hkind => hd (hkind ▸ h.head A hA), rfl⟩

theorem Fed.mem_base (h : z.Fed i) {p : ConfirmedPivot P} :
    p ∈ z.base k ↔ p ∈ z.pivots ∧ ¬ (p ∈ z.pivots.getLast? ∧ p.kind = k) := by
  rcases h.base_cases k with ⟨older, A, hz, hkind, -, hbase⟩ | ⟨hother, hbase⟩
  · have hsorted := h.sorted
    rw [hz, List.pairwise_append] at hsorted
    rw [hbase, hz, List.getLast?_concat, List.mem_append, List.mem_singleton]
    constructor
    · intro hp
      refine ⟨.inl hp, ?_⟩
      rintro ⟨hpA, -⟩
      obtain rfl := Option.some.inj hpA
      exact lt_irrefl _ (hsorted.2.2 A hp A (List.mem_singleton_self A))
    · rintro ⟨hp | rfl, hnot⟩
      exacts [hp, absurd ⟨rfl, hkind⟩ hnot]
  · rw [hbase]
    exact ⟨fun hp => ⟨hp, fun ⟨hhead, hkind⟩ => hother p hhead hkind⟩, And.left⟩

theorem base_sublist : (z.base k).Sublist z.pivots := by
  unfold base
  split
  · exact List.dropLast_sublist _
  · exact List.Sublist.refl _

/-! ## The two windows -/

theorem next_length (z : ZigZag P) (s : Sample P) :
    (z.next s).length = min z.length (z.window.length + 1) := by
  rw [next, length_rtake, List.length_append, List.length_singleton]

theorem Wider.next (h : lo.Wider hi) (s : Sample P) :
    lo.next s = (hi.next s).rtake lo.length := by
  rw [ZigZag.next, ZigZag.next, h.window, rtake_push lo.length_pos, rtake_rtake h.length]

theorem Wider.next_subset (h : lo.Wider hi) (s : Sample P) : lo.next s ⊆ hi.next s := by
  rw [h.next]
  exact rtake_subset _

/-- A full wide window makes the narrow one full. -/
theorem Wider.full (h : lo.Wider hi) (hfull : hi.length ≤ (hi.next s).length) :
    lo.length ≤ (lo.next s).length := by
  have := h.length
  rw [h.next, length_rtake]
  omega

/-- The narrow detector's head, if the wide one has it, is the head there. -/
theorem Covers.head (h : lo.Covers hi) (hlo : lo.Fed i) (hhi : hi.Fed i) {A B : ConfirmedPivot P}
    (hA : A ∈ lo.pivots.getLast?) (hB : B ∈ hi.pivots) (hkey : A.key = B.key) :
    B ∈ hi.pivots.getLast? := by
  obtain ⟨C, hC⟩ := Option.isSome_iff_exists.1 (List.getLast?_isSome.2 (List.ne_nil_of_mem hB))
  obtain ⟨D, hD, hDC⟩ := h C (List.mem_of_getLast? hC)
  have hle : D.barIndex ≤ A.barIndex := (hlo.le_head hA hD).elim (fun h => h ▸ le_rfl) le_of_lt
  have hAB : A.barIndex = B.barIndex := congrArg Prod.fst hkey
  have hDC : D.barIndex = C.barIndex := congrArg Prod.fst hDC
  rcases hhi.le_head hC hB with rfl | hlt
  · exact hC
  · omega

section push
variable [LinearOrder P]

theorem Takes.unique {k' : PivotKind} (h : z.Takes s k) (h' : z.Takes s k') : k = k' :=
  h.1.unique h'.1

/-- What is extreme in the wide window is extreme in the narrow one. -/
theorem Wider.atExtreme (h : lo.Wider hi) (hk : AtExtreme (hi.next s) s k) :
    AtExtreme (lo.next s) s k :=
  fun b hb => hk b (h.next_subset s hb)

/-- The bar keeps the pivots of `hi` among those of `lo`: `lo` records what `hi` records, and `hi`
lets go of a common head when `lo` does. -/
structure Keeps (lo hi : ZigZag P) (s : Sample P) : Prop where
  records : ∀ k, hi.Takes s k → ¬ (∀ k', AtExtreme (lo.next s) s k') ∧ ¬ lo.Holds s k
  follows : ∀ A ∈ lo.pivots.getLast?, lo.Takes s A.kind → ∀ B ∈ hi.pivots.getLast?,
    B.key = A.key → AtExtreme (hi.next s) s A.kind

/-- A bar that the wide detector takes is one for the narrow one, unless that one sees it at both
extremes or holds a head that is no less extreme. -/
theorem Wider.takes_iff (h : lo.Wider hi) (hk : hi.Takes s k) :
    lo.Takes s k ↔ ¬ (∀ k', AtExtreme (lo.next s) s k') ∧ ¬ lo.Holds s k := by
  have hat := h.atExtreme hk.1.2.1
  have hboth : (∀ k', AtExtreme (lo.next s) s k') ↔ AtExtreme (lo.next s) s k.opposite :=
    (atExtreme_both k).trans (and_iff_right hat)
  rw [hboth]
  exact and_congr_left fun _ => ⟨fun hs => hs.2.2, fun hopp => ⟨h.full hk.1.1, hat, hopp⟩⟩

/-- A common head that the narrow detector replaces is replaced by the wide one where the bar is at
the extreme of its window. -/
theorem Wider.follows_iff (h : lo.Wider hi) (hlo : lo.Fed i) (hhi : hi.Fed i) {A B : ConfirmedPivot P}
    (hA : A ∈ lo.pivots.getLast?) (hB : B ∈ hi.pivots.getLast?) (hkey : B.key = A.key)
    (hk : lo.Takes s A.kind) : hi.Takes s A.kind ↔ AtExtreme (hi.next s) s A.kind := by
  refine ⟨fun htakes => htakes.1.2.1, fun hat => ⟨⟨?_, hat, ?_⟩, ?_⟩⟩
  · have hfull := hhi.full (List.ne_nil_of_mem (List.mem_of_getLast? hB))
    rw [next_length]
    omega
  · exact fun hopp => hk.1.2.2 (h.atExtreme hopp)
  · rintro ⟨-, B', hB', hnot⟩
    obtain rfl := Option.some.inj (hB.symm.trans hB')
    have hprice := h.price A (List.mem_of_getLast? hA) B (List.mem_of_getLast? hB) hkey.symm
    exact hk.2 ⟨hlo.head A hA, A, hA, hprice ▸ hnot⟩

variable [Sub P] [Zero P]

/-! ## One bar -/

/-- The pivots after a bar: a head it replaces is gone, and it may be the new one. -/
theorem Fed.mem_push (h : z.Fed i) {p : ConfirmedPivot P} :
    p ∈ (z.push s).1.pivots ↔
      (p ∈ z.pivots ∧ ¬ (p ∈ z.pivots.getLast? ∧ z.Takes s p.kind))
      ∨ ∃ k, z.Takes s k ∧ p = z.pivotOf s k := by
  by_cases htakes : ∃ k, z.Takes s k
  · obtain ⟨k, hk⟩ := htakes
    have hkind : z.Takes s p.kind ↔ p.kind = k := ⟨fun h => h.unique hk, fun h => h ▸ hk⟩
    have hnew : (∃ k, z.Takes s k ∧ p = z.pivotOf s k) ↔ p = z.pivotOf s k :=
      ⟨fun ⟨_, hk', hp⟩ => hk'.unique hk ▸ hp, fun hp => ⟨k, hk, hp⟩⟩
    rw [(push_of_takes hk).1, List.mem_append, List.mem_singleton, h.mem_base, hkind, hnew]
  · have hno : ∀ k, ¬ z.Takes s k := fun k hk => htakes ⟨k, hk⟩
    rw [(push_of_not_takes hno).1]
    simp [hno]

/-- **One bar**: the detector has read it. -/
theorem fed_push (h : z.Fed i) (hs : s.barIndex = i) : (z.push s).1.Fed (i + 1) := by
  obtain ⟨hwindow, hlength⟩ := z.push_window s
  have hold : ∀ p ∈ (z.push s).1.pivots, p.barIndex < i + 1 := by
    intro p hp
    rcases h.mem_push.1 hp with ⟨hp, -⟩ | ⟨k, -, rfl⟩
    · exact (h.old p hp).trans (Nat.lt_succ_self i)
    · exact hs ▸ Nat.lt_succ_self _
  by_cases htakes : ∃ k, z.Takes s k
  · obtain ⟨k, hk⟩ := htakes
    obtain ⟨hpivots, hdir, -⟩ := push_of_takes hk
    refine ⟨fun hnil => ?_, fun A hA => ?_, fun _ => ?_, hold, ?_⟩
    · rw [hpivots] at hnil
      exact absurd hnil (List.append_ne_nil_of_right_ne_nil _ (List.cons_ne_nil _ _))
    · rw [hpivots, List.getLast?_concat] at hA
      obtain rfl := Option.some.inj hA
      exact hdir
    · rw [hwindow, hlength]
      exact hk.1.1
    · rw [hpivots, List.pairwise_append]
      refine ⟨h.sorted.sublist base_sublist, List.pairwise_singleton _ _, fun p hp q hq => ?_⟩
      obtain rfl := List.mem_singleton.1 hq
      exact (h.old p (base_sublist.subset hp)).trans_eq hs.symm
  · have hno : ∀ k, ¬ z.Takes s k := fun k hk => htakes ⟨k, hk⟩
    obtain ⟨hpivots, hdir, -⟩ := push_of_not_takes hno
    refine ⟨?_, ?_, fun hne => ?_, hold, ?_⟩
    · rw [hpivots, hdir]
      exact h.fresh
    · rw [hpivots, hdir]
      exact h.head
    · have hfull := h.full (hpivots ▸ hne)
      rw [hwindow, hlength, next_length]
      omega
    · rw [hpivots]
      exact h.sorted

/-- Two detectors stay so. -/
theorem wider_push (h : lo.Wider hi) (hlo : lo.Fed i) (hhi : hi.Fed i) (hs : s.barIndex = i) :
    (lo.push s).1.Wider (hi.push s).1 := by
  obtain ⟨hwlo, hllo⟩ := lo.push_window s
  obtain ⟨hwhi, hlhi⟩ := hi.push_window s
  refine ⟨by rw [hllo, hlhi]; exact h.length, by rw [hwlo, hwhi, hllo]; exact h.next s, ?_⟩
  intro A hA B hB hkey
  have hindex : A.barIndex = B.barIndex := congrArg Prod.fst hkey
  rcases hlo.mem_push.1 hA with ⟨hA, -⟩ | ⟨k, -, rfl⟩ <;>
    rcases hhi.mem_push.1 hB with ⟨hB, -⟩ | ⟨k', -, rfl⟩
  · exact h.price A hA B hB hkey
  · exact absurd (hindex.trans hs) (hlo.old A hA).ne
  · exact absurd (hindex.symm.trans hs) (hhi.old B hB).ne
  · exact congrArg s.value (congrArg Prod.snd hkey : k = k')

/-- **One bar**: `lo` goes on to cover `hi` exactly when the bar keeps the pivots. -/
theorem covers_push_iff (h : lo.Wider hi) (hcov : lo.Covers hi) (hlo : lo.Fed i) (hhi : hi.Fed i)
    (hs : s.barIndex = i) : (lo.push s).1.Covers (hi.push s).1 ↔ lo.Keeps hi s := by
  constructor
  · intro hpush
    refine ⟨fun k hk => ?_, fun A hA hkA B hB hkey => ?_⟩
    · rw [← h.takes_iff hk]
      obtain ⟨A, hA, hkey⟩ := hpush (hi.pivotOf s k) (hhi.mem_push.2 (.inr ⟨k, hk, rfl⟩))
      have hindex : A.barIndex = s.barIndex := congrArg Prod.fst hkey
      rcases hlo.mem_push.1 hA with ⟨hold, -⟩ | ⟨k', hk', rfl⟩
      · exact absurd (hindex.trans hs) (hlo.old A hold).ne
      · have hkind : k' = k := congrArg Prod.snd hkey
        exact hkind ▸ hk'
    · rw [← h.follows_iff hlo hhi hA hB hkey hkA]
      by_contra hnot
      have hkind : B.kind = A.kind := congrArg Prod.snd hkey
      obtain ⟨C, hC, hCB⟩ := hpush B
        (hhi.mem_push.2 (.inl ⟨List.mem_of_getLast? hB, fun hB => hnot (hkind ▸ hB.2)⟩))
      have hindex : C.barIndex = A.barIndex := congrArg Prod.fst (hCB.trans hkey)
      have hAold := hlo.old A (List.mem_of_getLast? hA)
      rcases hlo.mem_push.1 hC with ⟨hold, hkept⟩ | ⟨k', -, rfl⟩
      · rcases hlo.le_head hA hold with rfl | hlt
        exacts [hkept ⟨hA, hkA⟩, absurd hindex hlt.ne]
      · exact absurd (hindex.symm.trans hs) hAold.ne
  · rintro ⟨hrecords, hfollows⟩ B hB
    rcases hhi.mem_push.1 hB with ⟨hold, hkept⟩ | ⟨k, hk, rfl⟩
    · obtain ⟨A, hA, hkey⟩ := hcov B hold
      refine ⟨A, hlo.mem_push.2 (.inl ⟨hA, fun ⟨hhead, hkA⟩ => ?_⟩), hkey⟩
      have hBhead := hcov.head hlo hhi hhead hold hkey
      have hkind : A.kind = B.kind := congrArg Prod.snd hkey
      refine hkept ⟨hBhead, hkind ▸ ?_⟩
      exact (h.follows_iff hlo hhi hhead hBhead hkey.symm hkA).2
        (hfollows A hhead hkA B hBhead hkey.symm)
    · have hlok := (h.takes_iff hk).2 (hrecords k hk)
      exact ⟨lo.pivotOf s k, hlo.mem_push.2 (.inr ⟨k, hlok, rfl⟩), rfl⟩

end push

end ZigZag

end Qtss.Pivots
