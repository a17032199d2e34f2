import Mathlib.Order.Interval.Set.Basic
import Mathlib.Data.List.Basic
import Mathlib.Data.List.Induction
import Mathlib.Data.List.Pairwise
/-!
# Half-open intervals and greedy timelines

A segment `(s, e)` stands for the interval `[s, e)` of a linear order, empty where `e ≤ s`. `minus p s` is what a claim
`p` leaves of it, at most two segments, and `minusAll` what a list of claims leaves.

A timeline is laid by placing tiles one after the other: each keeps what the tiles before it have left of its range
(`lay`). `foldl_lay_laid` says what comes out: nonempty fragments that are pairwise disjoint, a point being covered by a
fragment of the first tile whose range covers it.
-/

namespace HalfOpen

variable {α : Type*} [LinearOrder α] {p s t : α × α} {ps l : List (α × α)} {x : α}

def Covers (s : α × α) (x : α) : Prop := s.1 ≤ x ∧ x < s.2

instance (s : α × α) (x : α) : Decidable (Covers s x) := inferInstanceAs (Decidable (_ ∧ _))

/-- No point in both. -/
def Disjoint (s t : α × α) : Prop := ∀ x, Covers s x → ¬ Covers t x

theorem Disjoint.symm (h : Disjoint s t) : Disjoint t s := fun x ht hs => h x hs ht

theorem Disjoint.mono (h : Disjoint s t) {s' t' : α × α} (hs : ∀ x, Covers s' x → Covers s x)
    (ht : ∀ x, Covers t' x → Covers t x) : Disjoint s' t' :=
  fun x hx hx' => h x (hs x hx) (ht x hx')

/-- Of two disjoint segments that are not empty, the one that starts first ends before the other starts. -/
theorem Disjoint.le_of_le (h : Disjoint s t) (ht : t.1 < t.2) (hst : s.1 ≤ t.1) : s.2 ≤ t.1 :=
  not_lt.1 fun hlt => h t.1 ⟨hst, hlt⟩ ⟨le_rfl, ht⟩

/-- Of disjoint segments one at most covers a point. -/
theorem filter_covers {τ : Type*} {range : τ → α × α} {ts : List τ} {t : τ}
    (h : ts.Pairwise fun t u => Disjoint (range t) (range u)) (ht : t ∈ ts) (hx : Covers (range t) x) :
    ts.filter (fun t => Covers (range t) x) = [t] := by
  obtain ⟨pre, post, rfl⟩ := List.append_of_mem ht
  obtain ⟨-, hpost, hpre⟩ := List.pairwise_append.1 h
  have hpre' : pre.filter (fun t => Covers (range t) x) = [] := by
    refine List.filter_eq_nil_iff.2 fun u hu hux => ?_
    exact hpre u hu t List.mem_cons_self x (by simpa using hux) hx
  have hpost' : post.filter (fun t => Covers (range t) x) = [] := by
    refine List.filter_eq_nil_iff.2 fun u hu hux => ?_
    exact (List.pairwise_cons.1 hpost).1 u hu x hx (by simpa using hux)
  rw [List.filter_append, List.filter_cons_of_pos (by simpa using hx), hpre', hpost', List.nil_append]

/-! ## What a claim leaves -/

def minus (p s : α × α) : List (α × α) :=
  let lo := max s.1 p.1
  let hi := min s.2 p.2
  if lo ≥ hi then [s]
  else (if s.1 < lo then [(s.1, lo)] else []) ++ (if hi < s.2 then [(hi, s.2)] else [])

theorem mem_minus : t ∈ minus p s ↔
    if max s.1 p.1 ≥ min s.2 p.2 then t = s
    else s.1 < max s.1 p.1 ∧ t = (s.1, max s.1 p.1) ∨ min s.2 p.2 < s.2 ∧ t = (min s.2 p.2, s.2) := by
  by_cases h : max s.1 p.1 ≥ min s.2 p.2
  · simp only [minus, if_pos h, List.mem_singleton]
  · simp only [minus, if_neg h, List.mem_append]
    split <;> split <;> simp_all

/-- A point is left exactly when the claim does not cover it. -/
theorem covers_minus : (∃ t ∈ minus p s, Covers t x) ↔ Covers s x ∧ ¬ Covers p x := by
  simp only [mem_minus, Covers]
  split
  next h =>
    simp only [exists_eq_left, iff_self_and, not_and, not_lt]
    rintro ⟨hsx, hxs⟩ hpx
    rcases le_total s.2 p.2 with hle | hle
    · rw [min_eq_left hle] at h
      exact absurd (max_le hsx hpx) (not_le.2 (hxs.trans_le h))
    · rw [min_eq_right hle] at h
      exact h.trans (max_le hsx hpx)
  next h =>
    rw [not_le] at h
    have hs := (le_max_left s.1 p.1).trans_lt (h.trans_le (min_le_left _ _))
    constructor
    · rintro ⟨t, (⟨-, rfl⟩ | ⟨-, rfl⟩), hlo, hhi⟩
      · refine ⟨⟨hlo, hhi.trans (h.trans_le (min_le_left _ _))⟩, fun hp => ?_⟩
        exact absurd (max_le hlo hp.1) (not_le.2 hhi)
      · refine ⟨⟨(le_max_left _ _).trans (h.le.trans hlo), hhi⟩, fun hp => ?_⟩
        exact absurd (lt_min hhi hp.2) (not_lt.2 hlo)
    · rintro ⟨⟨hsx, hxs⟩, hnot⟩
      rcases lt_or_ge x (max s.1 p.1) with hlt | hge
      · exact ⟨_, .inl ⟨hsx.trans_lt hlt, rfl⟩, hsx, hlt⟩
      · have hpx : min s.2 p.2 ≤ x := by
          by_contra hx
          exact hnot ⟨(le_max_right _ _).trans hge, (not_le.1 hx).trans_le (min_le_right _ _)⟩
        exact ⟨_, .inr ⟨hpx.trans_lt hxs, rfl⟩, hpx, hxs⟩

theorem minus_disjoint : (minus p s).Pairwise Disjoint := by
  unfold minus
  simp only
  split
  · exact List.pairwise_singleton _ _
  next h =>
    rw [not_le] at h
    refine List.pairwise_append.2 ⟨?_, ?_, ?_⟩
    · split <;> simp
    · split <;> simp
    · intro t ht t' ht' x hx hx'
      split at ht <;> split at ht' <;> simp only [List.mem_singleton, List.not_mem_nil] at ht ht'
      subst ht ht'
      exact absurd (hx'.1.trans_lt hx.2) (not_lt.2 h.le)

/-- A claim elsewhere leaves the segment as it is. -/
theorem minus_of_disjoint (h : Disjoint p s) : minus p s = [s] := by
  refine if_pos (not_lt.1 fun hlt => ?_)
  refine h (max s.1 p.1) ⟨le_max_right _ _, hlt.trans_le (min_le_right _ _)⟩
    ⟨le_max_left _ _, hlt.trans_le (min_le_left _ _)⟩

/-! ## What a list of claims leaves -/

def minusAll (ps : List (α × α)) (s : α × α) : List (α × α) := ps.foldl (fun l p => l.flatMap (minus p)) [s]

theorem covers_foldl_minus (ps : List (α × α)) (l : List (α × α)) :
    (∃ t ∈ ps.foldl (fun l p => l.flatMap (minus p)) l, Covers t x) ↔
      (∃ t ∈ l, Covers t x) ∧ ∀ p ∈ ps, ¬ Covers p x := by
  induction ps generalizing l with
  | nil => simp
  | cons p ps ih =>
    have hstep : (∃ t ∈ l.flatMap (minus p), Covers t x) ↔ (∃ t ∈ l, Covers t x) ∧ ¬ Covers p x := by
      constructor
      · rintro ⟨t, ht, hx⟩
        obtain ⟨s, hs, hts⟩ := List.mem_flatMap.1 ht
        obtain ⟨hsx, hpx⟩ := covers_minus.1 ⟨t, hts, hx⟩
        exact ⟨⟨s, hs, hsx⟩, hpx⟩
      · rintro ⟨⟨s, hs, hsx⟩, hpx⟩
        obtain ⟨t, hts, hx⟩ := covers_minus.2 ⟨hsx, hpx⟩
        exact ⟨t, List.mem_flatMap.2 ⟨s, hs, hts⟩, hx⟩
    rw [List.foldl_cons, ih, hstep, List.forall_mem_cons, and_assoc]

theorem covers_minusAll : (∃ t ∈ minusAll ps s, Covers t x) ↔ Covers s x ∧ ∀ p ∈ ps, ¬ Covers p x := by
  rw [minusAll, covers_foldl_minus]
  simp

theorem foldl_minus_disjoint (ps : List (α × α)) (h : l.Pairwise Disjoint) :
    (ps.foldl (fun l p => l.flatMap (minus p)) l).Pairwise Disjoint := by
  induction ps generalizing l with
  | nil => exact h
  | cons p ps ih =>
    refine ih (List.pairwise_flatMap.2 ⟨fun s _ => minus_disjoint, h.imp ?_⟩)
    intro s s' hss t ht t' ht'
    exact hss.mono (fun x hx => (covers_minus.1 ⟨t, ht, hx⟩).1) fun x hx => (covers_minus.1 ⟨t', ht', hx⟩).1

theorem minusAll_disjoint : (minusAll ps s).Pairwise Disjoint := foldl_minus_disjoint ps (List.pairwise_singleton _ _)

theorem minusAll_of_disjoint (h : ∀ p ∈ ps, Disjoint p s) : minusAll ps s = [s] := by
  induction ps with
  | nil => rfl
  | cons p ps ih =>
    obtain ⟨hp, hps⟩ := List.forall_mem_cons.1 h
    have hcons : minusAll (p :: ps) s = ps.foldl (fun l p => l.flatMap (minus p)) (minus p s) := by
      simp [minusAll]
    rw [hcons, minus_of_disjoint hp]
    exact ih hps

/-! ## Laying tiles -/

section lay
variable {τ β : Type*} (range : τ → α × α) (frag : τ → α × α → τ)

/-- The tile `c` on what the tiles already there have left of its range. -/
def lay (placed : List τ) (c : τ) : List τ :=
  placed ++ ((minusAll (placed.map range) (range c)).filter fun t => t.1 < t.2).map (frag c)

/-- What stands after the tiles `cs`, for tiles with a label. -/
structure Laid (label : τ → β) (cs placed : List τ) : Prop where
  nonempty : ∀ t ∈ placed, (range t).1 < (range t).2
  disjoint : placed.Pairwise fun t u => Disjoint (range t) (range u)
  /-- A point belongs to the first tile that covers it. -/
  owner : ∀ t ∈ placed, ∀ x, Covers (range t) x → ∃ c ∈ cs.find? (fun c => Covers (range c) x), label t = label c
  covered : ∀ c ∈ cs, ∀ x, Covers (range c) x → ∃ t ∈ placed, Covers (range t) x

variable {range frag} {label : τ → β} {cs placed : List τ}

theorem laid_nil : Laid range label [] ([] : List τ) where
  nonempty t ht := by simp at ht
  disjoint := List.Pairwise.nil
  owner t ht := by simp at ht
  covered c hc := by simp at hc

theorem find?_append_singleton (c : τ) : (cs ++ [c]).find? (fun c => Covers (range c) x) =
    (cs.find? fun c => Covers (range c) x).or (if Covers (range c) x then some c else none) := by
  rw [List.find?_append]
  by_cases h : Covers (range c) x <;> simp [h]

/-- **One tile more.** -/
theorem Laid.lay (h : Laid range label cs placed) (hrange : ∀ c t, range (frag c t) = t)
    (hlabel : ∀ c t, label (frag c t) = label c) (c : τ) : Laid range label (cs ++ [c]) (lay range frag placed c) := by
  have hfree : ∀ t ∈ minusAll (placed.map range) (range c), ∀ x, Covers t x →
      Covers (range c) x ∧ ∀ u ∈ placed, ¬ Covers (range u) x := by
    intro t ht x hx
    obtain ⟨hc, hps⟩ := covers_minusAll.1 ⟨t, ht, hx⟩
    exact ⟨hc, fun u hu => hps _ (List.mem_map_of_mem hu)⟩
  refine ⟨?_, ?_, ?_, ?_⟩
  · intro t ht
    rcases List.mem_append.1 ht with ht | ht
    · exact h.nonempty t ht
    · obtain ⟨u, hu, rfl⟩ := List.mem_map.1 ht
      rw [hrange]
      simpa using (List.mem_filter.1 hu).2
  · refine List.pairwise_append.2 ⟨h.disjoint, ?_, ?_⟩
    · refine List.pairwise_map.2 ((minusAll_disjoint.filter _).imp fun {u v} huv => ?_)
      rwa [hrange, hrange]
    · intro t ht u hu
      obtain ⟨v, hv, rfl⟩ := List.mem_map.1 hu
      rw [hrange]
      exact fun x hx hvx => (hfree v (List.mem_filter.1 hv |>.1) x hvx).2 t ht hx
  · intro t ht x hx
    rw [find?_append_singleton]
    rcases List.mem_append.1 ht with ht | ht
    · obtain ⟨d, hd, hlab⟩ := h.owner t ht x hx
      rw [hd]
      exact ⟨d, rfl, hlab⟩
    · obtain ⟨u, hu, rfl⟩ := List.mem_map.1 ht
      rw [hrange] at hx
      obtain ⟨hc, hfreex⟩ := hfree u (List.mem_filter.1 hu |>.1) x hx
      have hnone : cs.find? (fun c => Covers (range c) x) = none := by
        refine List.find?_eq_none.2 fun d hd hdx => ?_
        obtain ⟨v, hv, hvx⟩ := h.covered d hd x (by simpa using hdx)
        exact hfreex v hv hvx
      rw [hnone, if_pos hc]
      exact ⟨c, rfl, hlabel c u⟩
  · intro d hd x hx
    rcases List.mem_append.1 hd with hd | hd
    · obtain ⟨t, ht, htx⟩ := h.covered d hd x hx
      exact ⟨t, List.mem_append_left _ ht, htx⟩
    · rw [List.mem_singleton.1 hd] at hx
      by_cases hfree' : ∃ u ∈ placed, Covers (range u) x
      · obtain ⟨u, hu, hux⟩ := hfree'
        exact ⟨u, List.mem_append_left _ hu, hux⟩
      · have hclaims : ∀ p ∈ placed.map range, ¬ Covers p x := by
          intro p hp
          obtain ⟨u, hu, rfl⟩ := List.mem_map.1 hp
          exact fun hux => hfree' ⟨u, hu, hux⟩
        obtain ⟨t, ht, htx⟩ := covers_minusAll.2 ⟨hx, hclaims⟩
        refine ⟨frag c t, List.mem_append_right _ (List.mem_map_of_mem (List.mem_filter.2 ⟨ht, ?_⟩)), ?_⟩
        · simpa using htx.1.trans_lt htx.2
        · rwa [hrange]

/-- **A timeline.** -/
theorem foldl_lay_laid (hrange : ∀ c t, range (frag c t) = t) (hlabel : ∀ c t, label (frag c t) = label c)
    (cs : List τ) : Laid range label cs (cs.foldl (HalfOpen.lay range frag) []) := by
  induction cs using List.reverseRecOn with
  | nil => exact laid_nil
  | append_singleton cs c ih =>
    rw [List.foldl_concat]
    exact ih.lay hrange hlabel c

/-- Tiles that are disjoint already are placed whole. -/
theorem foldl_lay_of_disjoint (hrange : ∀ c t, range (frag c t) = t) (hne : ∀ c ∈ cs, (range c).1 < (range c).2)
    (hdisj : cs.Pairwise fun c d => Disjoint (range c) (range d)) :
    cs.foldl (HalfOpen.lay range frag) [] = cs.map fun c => frag c (range c) := by
  induction cs using List.reverseRecOn with
  | nil => rfl
  | append_singleton cs c ih =>
    obtain ⟨hcs, -, hlast⟩ := List.pairwise_append.1 hdisj
    rw [List.foldl_concat, ih (fun d hd => hne d (by simp [hd])) hcs, HalfOpen.lay, List.map_map]
    have hwhole : minusAll (cs.map (range ∘ fun c => frag c (range c))) (range c) = [range c] := by
      refine minusAll_of_disjoint fun p hp => ?_
      obtain ⟨d, hd, rfl⟩ := List.mem_map.1 hp
      rw [Function.comp_apply, hrange]
      exact hlast d hd c (List.mem_singleton_self c)
    rw [hwhole]
    simp [hne c (by simp)]

end lay

end HalfOpen
