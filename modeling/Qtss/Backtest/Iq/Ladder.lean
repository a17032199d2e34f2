import Mathlib.Data.List.GetD
import Mathlib.Data.List.Induction
import Qtss.Backtest.Iq.Manager
/-
# The take-profit ladder over a trade's life

`tpLoop_eq` reads the tier loop of `on_bar` as a fold of `hit` over the tiers a bar *reaches*: a tier
that is not recorded as filled, is crossed, and for which the tiers due before it leave something.
"Recorded as filled" is a positive pnl in the tier's slot, so a tier whose level is at the entry or on its
losing side is due again on the next bar that crosses it (`sound_iff`).
-/

namespace Qtss.Backtest.Iq
open Runs IqLifecycleManager

namespace IqTrade

/-- What the ladder takes off at tier `i`, if that much is left. -/
def tierQty (t : IqTrade) (i : ℕ) : ℚ := t.initialQty * fraction t.takeProfits.length i

/-- Tier `i` is not recorded as filled and the bar crosses it. -/
def Due (bar : Bar) (t : IqTrade) (i : ℕ) : Prop :=
  i < t.takeProfits.length ∧ t.tierPnl i ≤ 0 ∧ crossed bar t.long (t.takeProfits.getD i 0)

instance (bar : Bar) (t : IqTrade) (i : ℕ) : Decidable (Due bar t i) :=
  inferInstanceAs (Decidable (_ ∧ _ ∧ _))

/-- What the due tiers before tier `i` take off. -/
def ahead (bar : Bar) (t : IqTrade) (i : ℕ) : ℚ :=
  (((List.range i).filter fun j => decide (Due bar t j)).map t.tierQty).sum

/-- Tier `i` is due and the due tiers before it leave something. -/
def Reached (bar : Bar) (t : IqTrade) (i : ℕ) : Prop :=
  Due bar t i ∧ 0 < t.initialQty ∧ ahead bar t i < t.remainingQty

instance (bar : Bar) (t : IqTrade) (i : ℕ) : Decidable (Reached bar t i) :=
  inferInstanceAs (Decidable (_ ∧ _ ∧ _))

/-- The tiers the bar reaches, in order. -/
def reached (bar : Bar) (t : IqTrade) : List ℕ :=
  (List.range t.takeProfits.length).filter fun i => decide (Reached bar t i)

end IqTrade

open IqTrade

/-- One pass of the tier loop that executes tier `i`. -/
def hit (m : IqLifecycleManager) (bar : Bar) (t : IqTrade) (i : ℕ) : IqTrade :=
  let slice := min (t.tierQty i) t.remainingQty
  let tp := t.takeProfits.getD i 0
  let pnl := slicePnl t.entryPrice tp slice t.long
  { creditTier (m.realiseSlice t (.tier i) slice tp bar.time t.long) i pnl with state := .scalingOut }

/-! ## The tier loop -/

section loop
variable {m : IqLifecycleManager} {bar : Bar} {t t' : IqTrade}

theorem fraction_pos (n i : ℕ) : 0 < fraction n i := by
  unfold fraction tpFractions
  split
  · simp
  · rename_i hn
    split
    · rcases i with _ | _ | _ | i <;> norm_num
    · have hpos : (0 : ℚ) < n := by exact_mod_cast Nat.pos_of_ne_zero hn
      rw [List.getD_eq_getElem?_getD, List.getElem?_replicate]
      split
      · exact one_div_pos.2 hpos
      · exact one_pos

theorem tierQty_pos (h : 0 < t.initialQty) (i : ℕ) : 0 < t.tierQty i :=
  mul_pos h (fraction_pos _ _)

theorem ahead_succ (bar : Bar) (t : IqTrade) (i : ℕ) :
    ahead bar t (i + 1) = ahead bar t i + if Due bar t i then t.tierQty i else 0 := by
  unfold ahead
  rw [List.range_succ, List.filter_append, List.map_append, List.sum_append]
  by_cases h : Due bar t i <;> simp [h]

theorem ahead_mono (h : 0 < t.initialQty) {i j : ℕ} (hij : i ≤ j) : ahead bar t i ≤ ahead bar t j := by
  induction hij with
  | refl => exact le_rfl
  | step _ ih =>
    rw [ahead_succ]
    refine ih.trans (le_add_of_nonneg_right ?_)
    split
    · exact (tierQty_pos h _).le
    · exact le_rfl

theorem hit_remainingQty (i : ℕ) :
    (hit m bar t i).remainingQty = t.remainingQty - min (t.tierQty i) t.remainingQty := by
  have h : ¬ t.remainingQty - min (t.tierQty i) t.remainingQty < 0 :=
    not_lt.2 (sub_nonneg.2 (min_le_right _ _))
  exact if_neg h

/-- What the loop leaves as it was, and what it has to know of the trade it started from. -/
structure Midway (bar : Bar) (t : IqTrade) (k : ℕ) (t' : IqTrade) (filled : List Bool) : Prop where
  initialQty : t'.initialQty = t.initialQty
  takeProfits : t'.takeProfits = t.takeProfits
  polarity : t'.polarity = t.polarity
  length : filled.length = t.takeProfits.length
  filled : ∀ i, k ≤ i → i < t.takeProfits.length → filled.getD i false = decide (t.tierPnl i > 0)
  /-- What is left is what the due tiers before `k` leave, nothing once they take it all. -/
  remaining : 0 < t.initialQty → (t'.remainingQty = t.remainingQty - ahead bar t k)
    ∨ (t'.remainingQty ≤ 0 ∧ t.remainingQty ≤ ahead bar t k)

theorem Midway.left {k : ℕ} {filled : List Bool} (h : Midway bar t k t' filled)
    (hq : 0 < t.initialQty) : 0 < t'.remainingQty ↔ ahead bar t k < t.remainingQty := by
  rcases h.remaining hq with hr | ⟨hr, ha⟩
  · rw [hr, sub_pos]
  · exact ⟨fun h => absurd h hr.not_gt, fun h => absurd h ha.not_gt⟩

theorem Midway.skip {k : ℕ} {filled : List Bool} (h : Midway bar t k t' filled)
    (hd : ¬ Due bar t k) : Midway bar t (k + 1) t' filled where
  initialQty := h.initialQty
  takeProfits := h.takeProfits
  polarity := h.polarity
  length := h.length
  filled i hi := h.filled i (by omega)
  remaining hq := by
    rw [ahead_succ, if_neg hd, add_zero]
    exact h.remaining hq

theorem Midway.hit {k : ℕ} {filled : List Bool} (h : Midway bar t k t' filled)
    (hr : Reached bar t k) : Midway bar t (k + 1) (hit m bar t' k) (filled.set k true) where
  initialQty := h.initialQty
  takeProfits := h.takeProfits
  polarity := h.polarity
  length := by rw [List.length_set, h.length]
  filled i hi hlt := by
    rw [List.getD_eq_getElem?_getD, List.getElem?_set_ne (by omega), ← List.getD_eq_getElem?_getD]
    exact h.filled i (by omega) hlt
  remaining hq := by
    have hpos : 0 < t'.remainingQty := (h.left hq).2 hr.2.2
    have htier : t'.tierQty k = t.tierQty k := by rw [tierQty, h.initialQty, h.takeProfits, tierQty]
    rw [ahead_succ, if_pos hr.1]
    rw [hit_remainingQty, htier]
    rcases h.remaining hq with hrem | ⟨hle, -⟩
    · rcases le_total (t.tierQty k) t'.remainingQty with hmin | hmin
      · left
        rw [min_eq_left hmin, hrem, sub_sub]
      · right
        rw [min_eq_right hmin, sub_self]
        exact ⟨le_rfl, by linarith⟩
    · exact absurd hpos hle.not_gt

/-- Once a due tier finds nothing left, no later one is reached. -/
theorem not_reached_after {k : ℕ} (hd : Due bar t k) (hr : ¬ Reached bar t k) {i : ℕ} (hi : k ≤ i) :
    ¬ Reached bar t i := by
  rintro ⟨-, hq, hleft⟩
  exact hr ⟨hd, hq, (ahead_mono hq hi).trans_lt hleft⟩

theorem any_set {l : List Bool} {k : ℕ} (hk : k < l.length) : (l.set k true).any id = true := by
  rw [List.any_eq_true]
  exact ⟨true, List.mem_set hk true, rfl⟩

section pass
variable {k : ℕ} {tp : ℚ} {tps : List ℚ} {filled : List Bool}

/-- The loop at a tier that is reached. -/
theorem Midway.loop_hit (h : Midway bar t k t' filled) (hk : k < t.takeProfits.length)
    (htp : t.takeProfits.getD k 0 = tp) (hr : Reached bar t k) :
    m.tpLoop bar t.long t.initialQty (tpFractions t.takeProfits.length) k (tp :: tps) (t', filled) =
      m.tpLoop bar t.long t.initialQty (tpFractions t.takeProfits.length) (k + 1) tps
        (Iq.hit m bar t' k, filled.set k true) := by
  have hgt : ¬ k ≥ filled.length := by rw [h.length]; omega
  have hcont : filled.getD k false = false := by
    rw [h.filled k le_rfl hk]
    exact decide_eq_false (not_lt.2 hr.1.2.1)
  have hcross : ¬ ¬ crossed bar t.long tp := not_not.2 (htp ▸ hr.1.2.2)
  have htier : t'.tierQty k = t.initialQty * (tpFractions t.takeProfits.length).getD k 1 := by
    rw [tierQty, h.initialQty, h.takeProfits, fraction]
  have hslice : ¬ min (t'.tierQty k) t'.remainingQty ≤ 0 := by
    refine not_le.2 (lt_min ?_ ((h.left hr.2.1).2 hr.2.2))
    exact tierQty_pos (h.initialQty ▸ hr.2.1) k
  have hlong : t.long = t'.long := by rw [long, long, h.polarity]
  rw [tpLoop, if_neg hgt, hcont, if_neg Bool.false_ne_true, if_neg hcross]
  simp only [← htier]
  rw [if_neg hslice, Iq.hit, h.takeProfits, htp, ← hlong]

/-- The loop at a due tier for which nothing is left. -/
theorem Midway.loop_break (h : Midway bar t k t' filled) (htp : t.takeProfits.getD k 0 = tp)
    (hd : Due bar t k) (hr : ¬ Reached bar t k) :
    m.tpLoop bar t.long t.initialQty (tpFractions t.takeProfits.length) k (tp :: tps) (t', filled) =
      (t', filled) := by
  have hgt : ¬ k ≥ filled.length := by
    have := hd.1
    rw [h.length]
    omega
  have hcont : filled.getD k false = false := by
    rw [h.filled k le_rfl hd.1]
    exact decide_eq_false (not_lt.2 hd.2.1)
  have hcross : ¬ ¬ crossed bar t.long tp := not_not.2 (htp ▸ hd.2.2)
  have htier : t'.tierQty k = t.initialQty * (tpFractions t.takeProfits.length).getD k 1 := by
    rw [tierQty, h.initialQty, h.takeProfits, fraction]
  have hslice : min (t'.tierQty k) t'.remainingQty ≤ 0 := by
    rcases le_or_gt t.initialQty 0 with hq | hq
    · refine (min_le_left _ _).trans ?_
      rw [tierQty, h.initialQty]
      exact mul_nonpos_of_nonpos_of_nonneg hq (fraction_pos _ _).le
    · refine (min_le_right _ _).trans (not_lt.1 ?_)
      rw [h.left hq]
      exact fun hleft => hr ⟨hd, hq, hleft⟩
  rw [tpLoop, if_neg hgt, hcont, if_neg Bool.false_ne_true, if_neg hcross]
  simp only [← htier]
  rw [if_pos hslice]

/-- The loop at a tier that is recorded as filled, or not crossed. -/
theorem Midway.loop_skip (h : Midway bar t k t' filled) (hk : k < t.takeProfits.length)
    (htp : t.takeProfits.getD k 0 = tp) (hd : ¬ Due bar t k) :
    m.tpLoop bar t.long t.initialQty (tpFractions t.takeProfits.length) k (tp :: tps) (t', filled) =
      m.tpLoop bar t.long t.initialQty (tpFractions t.takeProfits.length) (k + 1) tps
        (t', filled) := by
  have hgt : ¬ k ≥ filled.length := by rw [h.length]; omega
  rw [tpLoop, if_neg hgt]
  by_cases hf : filled.getD k false = true
  · rw [if_pos hf]
  · have hcross : ¬ crossed bar t.long tp := by
      intro hcross
      refine hd ⟨hk, ?_, htp ▸ hcross⟩
      rw [h.filled k le_rfl hk, decide_eq_true_eq, not_lt] at hf
      exact hf
    rw [if_neg hf, if_pos hcross]

end pass

/-- **The tier loop** executes the tiers the bar reaches, in order. -/
theorem tpLoop_fold (tps : List ℚ) (k : ℕ) (t' : IqTrade) (filled : List Bool)
    (htps : tps = t.takeProfits.drop k) (h : Midway bar t k t' filled) :
    (m.tpLoop bar t.long t.initialQty (tpFractions t.takeProfits.length) k tps (t', filled)).1 =
        ((List.range' k tps.length).filter fun i => decide (Reached bar t i)).foldl (hit m bar) t'
    ∧ ((m.tpLoop bar t.long t.initialQty (tpFractions t.takeProfits.length) k tps (t', filled)).2.any id
        ↔ filled.any id ∨ ∃ i, k ≤ i ∧ Reached bar t i) := by
  induction tps generalizing k t' filled with
  | nil =>
    have hlen : t.takeProfits.length ≤ k := List.drop_eq_nil_iff.1 htps.symm
    have hno : ¬ ∃ i, k ≤ i ∧ Reached bar t i := by
      rintro ⟨i, hi, hr⟩
      have := hr.1.1
      omega
    simp [tpLoop, hno]
  | cons tp tps ih =>
    have hk : k < t.takeProfits.length := by
      have := congrArg List.length htps
      simp only [List.length_cons, List.length_drop] at this
      omega
    have htp : t.takeProfits.getD k 0 = tp := by
      rw [List.getD_eq_getElem?_getD, ← List.head?_drop, ← htps]
      rfl
    have hrest : tps = t.takeProfits.drop (k + 1) := by
      rw [← List.tail_drop, ← htps]
      rfl
    rw [List.length_cons, List.range'_succ, List.filter_cons]
    by_cases hd : Due bar t k
    · by_cases hr : Reached bar t k
      · obtain ⟨ih1, ih2⟩ := ih (k + 1) _ _ hrest (h.hit (m := m) hr)
        rw [h.loop_hit hk htp hr, if_pos (by simpa using hr), List.foldl_cons]
        refine ⟨ih1, ?_⟩
        rw [ih2, any_set (h.length ▸ hk)]
        simp only [true_or, true_iff]
        exact .inr ⟨k, le_rfl, hr⟩
      · -- the loop ends, and no later tier is reached either
        have hnone : ((List.range' (k + 1) tps.length).filter fun i => decide (Reached bar t i)) = [] := by
          rw [List.filter_eq_nil_iff]
          intro i hi
          rw [List.mem_range'_1] at hi
          simpa using not_reached_after hd hr (by omega : k ≤ i)
        have hno : ¬ ∃ i, k ≤ i ∧ Reached bar t i :=
          fun ⟨i, hi, hri⟩ => not_reached_after hd hr hi hri
        rw [h.loop_break htp hd hr, if_neg (by simpa using hr), hnone]
        exact ⟨rfl, by simp [hno]⟩
    · have hnr : ¬ Reached bar t k := fun hr => hd hr.1
      have hsome : (∃ i, k ≤ i ∧ Reached bar t i) ↔ ∃ i, k + 1 ≤ i ∧ Reached bar t i := by
        constructor
        · rintro ⟨i, hi, hr⟩
          rcases hi.eq_or_lt with rfl | hlt
          exacts [absurd hr hnr, ⟨i, hlt, hr⟩]
        · rintro ⟨i, hi, hr⟩
          exact ⟨i, by omega, hr⟩
      rw [h.loop_skip hk htp hd, if_neg (by simpa using hnr), hsome]
      exact ih (k + 1) t' filled hrest (h.skip hd)

theorem midway_start (bar : Bar) (t : IqTrade) : Midway bar t 0 t (tierFilled t) where
  initialQty := rfl
  takeProfits := rfl
  polarity := rfl
  length := by
    rw [tierFilled, List.length_map, List.length_take, t.tiers]
    omega
  filled i _ hi := by
    have hlen : i < t.tierPnls.length := by rw [t.tiers]; omega
    simp [tierFilled, tierPnl, hi, hlen]
  remaining _ := .inl (by simp [ahead])

theorem tierFilled_any (t : IqTrade) :
    (tierFilled t).any id ↔ ∃ i < t.takeProfits.length, 0 < t.tierPnl i := by
  have hlen := t.tiers
  rw [tierFilled, List.any_map, List.any_eq_true]
  constructor
  · rintro ⟨p, hp, hpos⟩
    obtain ⟨i, hi, rfl⟩ := List.getElem_of_mem hp
    rw [List.length_take] at hi
    refine ⟨i, by omega, ?_⟩
    rw [tierPnl, List.getD_eq_getElem _ _ (by omega : i < t.tierPnls.length)]
    simpa using hpos
  · rintro ⟨i, hi, hpos⟩
    have hi' : i < t.tierPnls.length := by omega
    rw [tierPnl, List.getD_eq_getElem _ _ hi'] at hpos
    exact ⟨t.tierPnls[i], List.mem_take_iff_getElem.2 ⟨i, by omega, rfl⟩, by simpa using hpos⟩

/-- The loop from the first tier. -/
theorem tpLoop_eq (m : IqLifecycleManager) (bar : Bar) (t : IqTrade) :
    (m.tpLoop bar t.long t.initialQty (tpFractions t.takeProfits.length) 0 t.takeProfits
        (t, tierFilled t)).1 = (reached bar t).foldl (hit m bar) t
    ∧ ((m.tpLoop bar t.long t.initialQty (tpFractions t.takeProfits.length) 0 t.takeProfits
        (t, tierFilled t)).2.any id ↔
        ∃ i < t.takeProfits.length, 0 < t.tierPnl i ∨ Reached bar t i) := by
  obtain ⟨h1, h2⟩ := @tpLoop_fold m bar t t.takeProfits 0 t (tierFilled t) rfl (midway_start bar t)
  refine ⟨?_, ?_⟩
  · rw [h1, reached, List.range_eq_range']
  · rw [h2, tierFilled_any]
    constructor
    · rintro (⟨i, hi, hp⟩ | ⟨i, -, hr⟩)
      exacts [⟨i, hi, .inl hp⟩, ⟨i, hr.1.1, .inr hr⟩]
    · rintro ⟨i, hi, hp | hr⟩
      exacts [.inl ⟨i, hi, hp⟩, .inr ⟨i, Nat.zero_le i, hr⟩]

end loop

/-! ## One bar -/

/-- The trade after a bar. -/
def step (m : IqLifecycleManager) (t : IqTrade) (bar : Bar) : IqTrade := (m.onTrade bar t).trade

section bar
variable {m : IqLifecycleManager} {bar : Bar} {t : IqTrade}

theorem step_inactive (h : ¬ t.Active) : step m t bar = t := by
  rw [step, onTrade, if_pos h]
  split <;> rfl

/-- The trade when the tier loop of a bar is through. -/
def laddered (m : IqLifecycleManager) (bar : Bar) (t : IqTrade) : IqTrade :=
  (reached bar t).foldl (hit m bar) (t.observePath bar.close t.long)

/-- Some tier is recorded as filled when the tier loop of a bar is through. -/
def SeenFilled (bar : Bar) (t : IqTrade) : Prop :=
  ∃ i < t.takeProfits.length, 0 < t.tierPnl i ∨ Reached bar t i

instance : Decidable (SeenFilled bar t) :=
  inferInstanceAs (Decidable (∃ i < t.takeProfits.length, _))

theorem onTrade_active (h : t.Active) : ∃ filled : List Bool,
    (filled.any id ↔ SeenFilled bar t) ∧ m.onTrade bar t =
      m.settle bar t.long (decide (stopTouched bar t)) filled (laddered m bar t) := by
  obtain ⟨h1, h2⟩ := tpLoop_eq m bar (t.observePath bar.close t.long)
  refine ⟨_, h2, ?_⟩
  rw [onTrade, if_neg (not_not.2 h)]
  exact congrArg (m.settle bar t.long (decide (stopTouched bar t)) _) h1

theorem finalize_not_active {exitBar : ℕ} {exitTime : DateTime} {price : ℚ} {outcome : TradeOutcome} :
    ¬ (finalize t exitBar exitTime price outcome).Active := by
  unfold finalize
  split
  · rename_i h
    rintro (ho | ho) <;> rw [ho] at h <;> simp at h
  · rintro (ho | ho) <;> cases ho

/-- The stop moves to the bar's close less the distance, if that is tighter. -/
theorem tighten_eq (long : Bool) (mult : ℚ) : tighten bar long mult t =
    { t with
      stopLoss :=
        if long then max t.stopLoss (bar.close - |t.entryPrice - t.stopLoss| * mult)
        else min t.stopLoss (bar.close + |t.entryPrice - t.stopLoss| * mult) } := by
  cases long with
  | true =>
    by_cases h : bar.close - |t.entryPrice - t.stopLoss| * mult > t.stopLoss
    · simp [tighten, h, h.le]
    · simp [tighten, h, not_lt.1 h]
  | false =>
    by_cases h : bar.close + |t.entryPrice - t.stopLoss| * mult < t.stopLoss
    · simp [tighten, h, h.le]
    · simp [tighten, h, not_lt.1 h]

theorem trailingStop_closed {long : Bool} {filled : List Bool} {t' : IqTrade}
    (h : m.trailingStop bar long filled t = .closed t') :
    t' = finalize (m.realiseRest t .trail t.stopLoss bar.time long) bar.index bar.time t.stopLoss
      .trailingStop := by
  unfold trailingStop at h
  split at h
  · cases h
  · simp only at h
    split at h
    · split at h
      · exact (Disposition.closed.inj h).symm
      · cases h
    · cases h

theorem trailingStop_keep {long : Bool} {filled : List Bool} {t' : IqTrade}
    (h : m.trailingStop bar long filled t = .keep t') : t' = t ∨ ∃ mult, t' = tighten bar long mult t := by
  unfold trailingStop at h
  split at h
  · exact .inl (Disposition.keep.inj h).symm
  · simp only at h
    split at h
    · split at h
      · cases h
      · exact .inr ⟨_, (Disposition.keep.inj h).symm⟩
    · exact .inl (Disposition.keep.inj h).symm

/-- **After the tier loop**: the rest is realised once, by some exit, and the trade finalised; or
nothing is realised and only the stop may move. `P` is what holds before the rest is realised and
`Q` what holds of the closed trade. -/
theorem settle_rec {P Q : IqTrade → Prop} {long slHit : Bool} {filled : List Bool} (hP : P t)
    (htighten : ∀ t mult, P t → P (tighten bar long mult t))
    (hrest : ∀ t cause price, P t → (∀ i, cause ≠ .tier i) →
      (cause = .stop → slHit ∧ t.remainingQty > 0) → Q (m.realiseRest t cause price bar.time long))
    (hPQ : ∀ t, P t → Q t)
    (hfin : ∀ t price outcome, Q t → Q (finalize t bar.index bar.time price outcome)) :
    (∃ t', m.settle bar long slHit filled t = .closed t' ∧ Q t' ∧ ¬ t'.Active)
    ∨ ∃ t', m.settle bar long slHit filled t = .keep t' ∧ P t'
      ∧ m.trailingStop bar long filled t = .keep t' := by
  have hclose : ∀ t cause outcome, P t → (∀ i, cause ≠ .tier i) → cause ≠ .stop →
      Q (m.exitAtClose bar long cause outcome t) := by
    intro t cause outcome ht hc hs
    unfold exitAtClose
    refine hfin _ _ _ ?_
    split
    · exact hrest t cause _ ht hc fun h => absurd h hs
    · exact hPQ t ht
  unfold settle
  split
  · rename_i h
    exact .inl ⟨_, rfl, hfin _ _ _ (hrest t .stop _ hP nofun fun _ => h), finalize_not_active⟩
  split
  · exact .inl ⟨_, rfl, hfin _ _ _ (hPQ t hP), finalize_not_active⟩
  cases htrail : m.trailingStop bar long filled t with
  | closed t' =>
    rw [trailingStop_closed htrail]
    exact .inl ⟨_, rfl, hfin _ _ _ (hrest t .trail _ hP nofun nofun), finalize_not_active⟩
  | keep t' =>
    have ht' : P t' := by
      rcases trailingStop_keep htrail with rfl | ⟨mult, rfl⟩
      exacts [hP, htighten t mult hP]
    simp only
    split
    · exact .inl ⟨_, rfl, hclose t' _ _ ht' nofun nofun, finalize_not_active⟩
    split
    · exact .inl ⟨_, rfl, hclose t' _ _ ht' nofun nofun, finalize_not_active⟩
    · exact .inr ⟨t', rfl, ht', rfl⟩

theorem executedTiers_append_exit {cause : Cause} (h : ∀ i, cause ≠ .tier i) (qty price : ℚ) :
    IqTrade.executedTiers { t with slices := t.slices ++ [⟨cause, qty, price⟩] } = t.executedTiers := by
  unfold executedTiers
  rw [List.filterMap_append]
  cases cause with
  | tier i => exact absurd rfl (h i)
  | _ => exact List.append_nil _

theorem settle_executed {long slHit : Bool} {filled : List Bool} :
    (m.settle bar long slHit filled t).trade.executedTiers = t.executedTiers := by
  have h := @settle_rec m bar t (fun t' => t'.executedTiers = t.executedTiers)
    (fun t' => t'.executedTiers = t.executedTiers) long slHit filled rfl
    (fun t' mult h => by rw [tighten_eq]; exact h)
    (fun t' cause price h hc _ => (executedTiers_append_exit hc _ _).trans h) (fun _ h => h)
    fun t' price outcome h => by
      unfold finalize
      split <;> exact h
  rcases h with ⟨t', hs, h, -⟩ | ⟨t', hs, h, -⟩ <;> rw [hs] <;> exact h

theorem hit_executed (i : ℕ) : (hit m bar t i).executedTiers = t.executedTiers ++ [i] := by
  show List.filterMap _ (t.slices ++ _) = _
  rw [List.filterMap_append]
  rfl

theorem foldl_hit_executed (l : List ℕ) :
    (l.foldl (hit m bar) t).executedTiers = t.executedTiers ++ l := by
  induction l generalizing t with
  | nil => simp
  | cons i l ih => rw [List.foldl_cons, ih, hit_executed, List.append_assoc, List.singleton_append]

/-- A bar executes the tiers it reaches. -/
theorem step_executed (h : t.Active) : (step m t bar).executedTiers = t.executedTiers ++ reached bar t := by
  obtain ⟨filled, -, honTrade⟩ := @onTrade_active m bar t h
  rw [step, honTrade, settle_executed, laddered, foldl_hit_executed]
  rfl

end bar

/-! ## The open trades -/

def Disposition.asClosed : Disposition → Option IqTrade
  | .closed t => some t
  | .keep _ => none

def Disposition.asKept : Disposition → Option IqTrade
  | .closed _ => none
  | .keep t => some t

section book
variable {m : IqLifecycleManager} {bar : Bar} {t : IqTrade}

/-- `on_bar` takes each trade on its own and keeps their order. -/
theorem onBar_eq (m : IqLifecycleManager) (bar : Bar) (ts : List IqTrade) :
    m.onBar bar ts = (ts.filterMap fun t => (m.onTrade bar t).asClosed,
      ts.filterMap fun t => (m.onTrade bar t).asKept) := by
  unfold onBar
  induction ts using List.reverseRecOn with
  | nil => rfl
  | append_singleton ts t ih =>
    rw [List.foldl_concat, ih, List.filterMap_append, List.filterMap_append]
    cases h : m.onTrade bar t <;> simp [h, Disposition.asClosed, Disposition.asKept]

/-- No trade is lost or doubled: every one handed to `on_bar` comes back once, one step on. -/
theorem onBar_perm (m : IqLifecycleManager) (bar : Bar) (ts : List IqTrade) :
    ((m.onBar bar ts).1 ++ (m.onBar bar ts).2).Perm (ts.map fun t => step m t bar) := by
  rw [onBar_eq]
  induction ts with
  | nil => exact List.Perm.nil
  | cons t ts ih =>
    rw [List.map_cons, List.filterMap_cons, List.filterMap_cons, step]
    cases m.onTrade bar t with
    | closed t' => exact ih.cons t'
    | keep t' => exact List.perm_middle.trans (ih.cons t')

end book

/-! ## The ladder's books -/

/-- No tier is executed twice, what is left is what the slices leave and stays within the position,
and the gross pnl is what the tiers record. -/
structure Sound (t : IqTrade) : Prop where
  once : t.executedTiers.Nodup
  nonneg : 0 ≤ t.remainingQty
  le_initial : t.remainingQty ≤ t.initialQty
  balance : t.remainingQty = t.initialQty - (t.slices.map (·.qty)).sum
  gross : t.grossPnl = t.tierPnls.sum

instance (t : IqTrade) : Decidable (Sound t) :=
  decidable_of_iff (_ ∧ _ ∧ _ ∧ _ ∧ _)
    ⟨fun h => ⟨h.1, h.2.1, h.2.2.1, h.2.2.2.1, h.2.2.2.2⟩,
      fun h => ⟨h.once, h.nonneg, h.le_initial, h.balance, h.gross⟩⟩

/-- The level of tier `i` is at the entry or on its losing side. -/
def IqTrade.Losing (t : IqTrade) (i : ℕ) : Prop :=
  if t.long then t.takeProfits.getD i 0 ≤ t.entryPrice else t.entryPrice ≤ t.takeProfits.getD i 0

instance (t : IqTrade) (i : ℕ) : Decidable (t.Losing i) := by
  unfold IqTrade.Losing
  infer_instance

/-- While the trade runs the slots of the tiers not executed and the last slot are empty, and those of the
others have the sign of their level. -/
structure Running (t : IqTrade) : Prop extends Sound t where
  positive : 0 < t.initialQty
  tiers : ∀ i ∈ t.executedTiers, i < t.takeProfits.length
  fresh : ∀ i < t.takeProfits.length, i ∉ t.executedTiers → t.tierPnl i = 0
  paid : ∀ i ∈ t.executedTiers, t.tierPnl i ≤ 0 ↔ t.Losing i
  last : t.tierPnl t.takeProfits.length = 0

/-- The bar crosses a tier that was not executed, or whose level is at the entry or on its losing side. -/
def Crosses (bar : Bar) (t : IqTrade) (i : ℕ) : Prop :=
  (i ∉ t.executedTiers ∨ t.Losing i) ∧ crossed bar t.long (t.takeProfits.getD i 0)

instance (bar : Bar) (t : IqTrade) (i : ℕ) : Decidable (Crosses bar t i) :=
  inferInstanceAs (Decidable (_ ∧ _))

/-- No executed tier with such a level is crossed again while the tiers crossed before it leave something. -/
def NotAgain (t : IqTrade) (bar : Bar) : Prop :=
  t.Active → ∀ i ∈ t.executedTiers, t.Losing i → crossed bar t.long (t.takeProfits.getD i 0) →
    t.remainingQty ≤ (((List.range i).filter fun j => decide (Crosses bar t j)).map t.tierQty).sum

instance (t : IqTrade) (bar : Bar) : Decidable (NotAgain t bar) :=
  inferInstanceAs (Decidable (_ → ∀ i ∈ t.executedTiers, _))

section books
variable {m : IqLifecycleManager} {bar : Bar} {t : IqTrade}

theorem creditTier_sum {i : ℕ} (hi : i ≤ t.takeProfits.length) (h : t.tierPnl i = 0) (pnl : ℚ) :
    (creditTier t i pnl).tierPnls.sum = t.tierPnls.sum + pnl := by
  have hlt : i < t.tierPnls.length := by rw [t.tiers]; omega
  have hzero : t.tierPnls[i] = 0 := by rwa [tierPnl, List.getD_eq_getElem _ _ hlt] at h
  show (t.tierPnls.set i pnl).sum = _
  rw [List.sum_set', dif_pos hlt, hzero, neg_zero, zero_add]

theorem creditTier_tierPnl {i j : ℕ} (h : j ≠ i) (pnl : ℚ) :
    (creditTier t i pnl).tierPnl j = t.tierPnl j := by
  show (t.tierPnls.set i pnl).getD j 0 = t.tierPnls.getD j 0
  rw [List.getD_eq_getElem?_getD, List.getElem?_set_ne h.symm, ← List.getD_eq_getElem?_getD]

theorem creditTier_tierPnl_self {i : ℕ} (hi : i ≤ t.takeProfits.length) (pnl : ℚ) :
    (creditTier t i pnl).tierPnl i = pnl := by
  have hlt : i < t.tierPnls.length := by rw [t.tiers]; omega
  show (t.tierPnls.set i pnl).getD i 0 = pnl
  rw [List.getD_eq_getElem?_getD, List.getElem?_set_self hlt, Option.getD_some]

/-- The pnl of a tier has the sign of its level. -/
theorem slicePnl_nonpos_iff {i : ℕ} {slice : ℚ} (hslice : 0 < slice) :
    slicePnl t.entryPrice (t.takeProfits.getD i 0) slice t.long ≤ 0 ↔ t.Losing i := by
  have hsign : ∀ d : ℚ, d * slice ≤ 0 ↔ d ≤ 0 := fun d =>
    ⟨fun h => not_lt.1 fun hd => h.not_gt (mul_pos hd hslice), fun h => mul_nonpos_of_nonpos_of_nonneg h hslice.le⟩
  unfold slicePnl IqTrade.Losing
  split <;> rw [hsign, sub_nonpos]

theorem hit_running (h : Running t) (hleft : 0 < t.remainingQty) {i : ℕ} (hi : i < t.takeProfits.length)
    (hnew : i ∉ t.executedTiers) : Running (hit m bar t i) := by
  have hslice : 0 < min (t.tierQty i) t.remainingQty := lt_min (tierQty_pos h.positive i) hleft
  have hslices : (hit m bar t i).slices =
      t.slices ++ [⟨.tier i, min (t.tierQty i) t.remainingQty, t.takeProfits.getD i 0⟩] := rfl
  refine { once := ?_, nonneg := ?_, le_initial := ?_, balance := ?_, gross := ?_,
           positive := h.positive, tiers := ?_, fresh := ?_, paid := ?_, last := ?_ }
  · rw [hit_executed]
    exact List.nodup_append.2 ⟨h.once, List.pairwise_singleton _ i, fun a ha b hb hab =>
      hnew (List.mem_singleton.1 hb ▸ hab ▸ ha)⟩
  · rw [hit_remainingQty]
    exact sub_nonneg.2 (min_le_right _ _)
  · rw [hit_remainingQty]
    exact (sub_le_self _ hslice.le).trans h.le_initial
  · have hinitial : (hit m bar t i).initialQty = t.initialQty := rfl
    rw [hit_remainingQty, hslices, hinitial, List.map_append, List.sum_append, List.map_singleton,
      List.sum_singleton, ← sub_sub, ← h.balance]
  · exact (congrArg (· + _) h.gross).trans
      (creditTier_sum (t := m.realiseSlice t _ _ _ _ _) hi.le (h.fresh i hi hnew) _).symm
  · intro j hj
    rw [hit_executed, List.mem_append, List.mem_singleton] at hj
    rcases hj with hj | rfl
    exacts [h.tiers j hj, hi]
  · intro j hj hjn
    rw [hit_executed, List.mem_append, not_or, List.mem_singleton] at hjn
    exact (creditTier_tierPnl (t := m.realiseSlice t _ _ _ _ _) hjn.2 _).trans (h.fresh j hj hjn.1)
  · intro j hj
    rw [hit_executed, List.mem_append, List.mem_singleton] at hj
    rcases hj with hj | rfl
    · have hne : j ≠ i := fun heq => hnew (heq ▸ hj)
      have hsame : (hit m bar t i).tierPnl j = t.tierPnl j :=
        creditTier_tierPnl (t := m.realiseSlice t _ _ _ _ _) hne _
      rw [hsame]
      exact h.paid j hj
    · have hpnl : (hit m bar t j).tierPnl j =
          slicePnl t.entryPrice (t.takeProfits.getD j 0) (min (t.tierQty j) t.remainingQty) t.long :=
        creditTier_tierPnl_self (t := m.realiseSlice t _ _ _ _ _) hi.le _
      rw [hpnl]
      exact slicePnl_nonpos_iff hslice
  · exact (creditTier_tierPnl (t := m.realiseSlice t _ _ _ _ _) hi.ne' _).trans h.last

/-- After the tiers before `k`. -/
def passed (m : IqLifecycleManager) (bar : Bar) (t : IqTrade) (k : ℕ) : IqTrade :=
  ((List.range k).filter fun i => decide (Reached bar t i)).foldl (hit m bar) (t.observePath bar.close t.long)

/-- The tiers that a bar reaches find something left, as long as none of them was executed before. -/
theorem laddered_running (h : Running t) (hnew : ∀ i ∈ t.executedTiers, ¬ Reached bar t i) :
    Running (laddered m bar t) := by
  have hpass : ∀ k, Running (passed m bar t k) ∧
      ((∃ filled, Midway bar t k (passed m bar t k) filled) ∨ ∀ i, k ≤ i → ¬ Reached bar t i) := by
    unfold passed
    intro k
    induction k with
    | zero => exact ⟨{ h with }, .inl ⟨_, { midway_start bar t with }⟩⟩
    | succ k ih =>
      obtain ⟨hrunning, hmidway⟩ := ih
      rw [List.range_succ, List.filter_append, List.foldl_append]
      by_cases hr : Reached bar t k
      · rcases hmidway with ⟨filled, hmidway⟩ | hnone
        · rw [List.filter_singleton, decide_eq_true hr, cond_true, List.foldl_cons, List.foldl_nil]
          refine ⟨hit_running hrunning ((hmidway.left h.positive).2 hr.2.2) ?_ ?_, .inl ⟨_, hmidway.hit hr⟩⟩
          · rw [hmidway.takeProfits]
            exact hr.1.1
          · rw [foldl_hit_executed, List.mem_append, not_or]
            exact ⟨fun hmem => hnew k hmem hr, fun hmem => absurd (List.mem_range.1 (List.mem_filter.1 hmem).1) (lt_irrefl k)⟩
        · exact absurd hr (hnone k le_rfl)
      · rw [List.filter_singleton, decide_eq_false hr, cond_false, List.foldl_nil]
        refine ⟨hrunning, ?_⟩
        rcases hmidway with ⟨filled, hmidway⟩ | hnone
        · by_cases hd : Due bar t k
          · exact .inr fun i hi => not_reached_after hd hr (by omega)
          · exact .inl ⟨filled, hmidway.skip hd⟩
        · exact .inr fun i hi => hnone i (by omega)
  exact (hpass t.takeProfits.length).1

theorem realiseRest_remainingQty {cause : Cause} {price : ℚ} {time : DateTime} {long : Bool} :
    (m.realiseRest t cause price time long).remainingQty = 0 := by
  show (if t.remainingQty - t.remainingQty < 0 then (0 : ℚ) else t.remainingQty - t.remainingQty) = 0
  rw [sub_self, ite_self]

theorem realiseRest_sound (h : Running t) {cause : Cause} (hc : ∀ i, cause ≠ .tier i) {price : ℚ}
    {time : DateTime} {long : Bool} : Sound (m.realiseRest t cause price time long) where
  once := by
    have := executedTiers_append_exit (t := t) hc t.remainingQty price
    exact this.symm ▸ h.once
  nonneg := realiseRest_remainingQty.ge
  le_initial := by
    rw [realiseRest_remainingQty]
    exact h.nonneg.trans h.le_initial
  balance := by
    have hslices : (m.realiseRest t cause price time long).slices =
        t.slices ++ [⟨cause, t.remainingQty, price⟩] := rfl
    have hinitial : (m.realiseRest t cause price time long).initialQty = t.initialQty := rfl
    rw [realiseRest_remainingQty, hslices, hinitial, List.map_append, List.sum_append,
      List.map_singleton, List.sum_singleton, ← sub_sub, ← h.balance, sub_self]
  gross := by
    have hlast : t.tierPnls.length - 1 = t.takeProfits.length := by rw [t.tiers]; rfl
    have hzero : t.tierPnl (t.tierPnls.length - 1) = 0 := hlast ▸ h.last
    exact (congrArg (· + _) h.gross).trans
      (creditTier_sum (t := m.realiseSlice t _ _ _ _ _) hlast.le hzero _).symm

theorem finalize_sound {exitBar : ℕ} {exitTime : DateTime} {price : ℚ} {outcome : TradeOutcome}
    (h : Sound t) : Sound (finalize t exitBar exitTime price outcome) := by
  unfold finalize
  split
  · exact h
  · exact ⟨h.once, h.nonneg, h.le_initial, h.balance, h.gross⟩

/-- An executed tier is reached again by its level. -/
theorem reached_again (h : Running t) {i : ℕ} (hi : i ∈ t.executedTiers) :
    Reached bar t i ↔ t.Losing i ∧ crossed bar t.long (t.takeProfits.getD i 0) ∧
      (((List.range i).filter fun j => decide (Crosses bar t j)).map t.tierQty).sum < t.remainingQty := by
  have hdue : ∀ j, j < t.takeProfits.length → (Due bar t j ↔ Crosses bar t j) := by
    intro j hj
    unfold Due Crosses
    by_cases hmem : j ∈ t.executedTiers
    · simp [hj, hmem, h.paid j hmem]
    · simp [hj, hmem, h.fresh j hj hmem]
  have hahead : ahead bar t i = (((List.range i).filter fun j => decide (Crosses bar t j)).map t.tierQty).sum := by
    unfold ahead
    congr 2
    refine List.filter_congr fun j hj => ?_
    exact decide_eq_decide.2 (hdue j ((List.mem_range.1 hj).trans (h.tiers i hi)))
  unfold Reached
  rw [hahead, hdue i (h.tiers i hi), Crosses]
  have hpos := h.positive
  tauto

/-- **One bar** on which no executed tier is reached again. -/
theorem step_running (h : t.Active → Running t) (hs : Sound t) (hn : NotAgain t bar) :
    Sound (step m t bar) ∧ ((step m t bar).Active → Running (step m t bar)) := by
  by_cases ha : t.Active
  · have hlad : Running (laddered m bar t) := laddered_running (h ha) fun i hi hr =>
      (hn ha i hi ((reached_again (h ha) hi).1 hr).1 ((reached_again (h ha) hi).1 hr).2.1).not_gt
        ((reached_again (h ha) hi).1 hr).2.2
    obtain ⟨filled, -, honTrade⟩ := @onTrade_active m bar t ha
    rw [step, honTrade]
    have := @settle_rec m bar (laddered m bar t) Running Sound t.long (decide (stopTouched bar t)) filled
      hlad (fun t mult h => by rw [tighten_eq]; exact { h with }) (fun t cause price h hc _ => realiseRest_sound h hc)
      (fun t h => h.toSound) fun t price outcome h => finalize_sound h
    rcases this with ⟨t', hs, hq, hna⟩ | ⟨t', hs, hp, -⟩
    · rw [hs]
      exact ⟨hq, fun h => absurd h hna⟩
    · rw [hs]
      exact ⟨hp.toSound, fun _ => hp⟩
  · rw [step_inactive ha]
    exact ⟨hs, fun h => absurd h ha⟩

/-- A tier reached again is executed again. -/
theorem not_sound_of_again (h : t.Active → Running t) (hagain : ¬ NotAgain t bar) : ¬ Sound (step m t bar) := by
  unfold NotAgain at hagain
  push Not at hagain
  obtain ⟨ha, i, hi, hlosing, hcrossed, hleft⟩ := hagain
  have hr : Reached bar t i := (reached_again (h ha) hi).2 ⟨hlosing, hcrossed, hleft⟩
  intro hs
  have honce := hs.once
  rw [step_executed ha] at honce
  refine (List.nodup_append.1 honce).2.2 i hi i ?_ rfl
  exact List.mem_filter.2 ⟨List.mem_range.2 hr.1.1, decide_eq_true hr⟩

end books

theorem running_pending (tradeId : Uuid) (polarity : IqPolarity) (entryBar : ℕ)
    (entryTime : DateTime) (entryPrice stopLoss : ℚ) (takeProfits : List ℚ) {initialQty : ℚ}
    (hq : 0 < initialQty) :
    Running (pending tradeId polarity entryBar entryTime entryPrice stopLoss takeProfits
      initialQty).opened where
  once := List.nodup_nil
  nonneg := hq.le
  le_initial := le_rfl
  balance := (sub_zero _).symm
  gross := by simp [pending, opened]
  positive := hq
  tiers _ h := nomatch h
  paid _ h := nomatch h
  fresh i _ _ := by
    show (List.replicate _ (0 : ℚ)).getD i 0 = 0
    simp [List.getD_eq_getElem?_getD, List.getElem?_replicate]
    split <;> rfl
  last := by
    show (List.replicate _ (0 : ℚ)).getD _ 0 = 0
    simp [List.getD_eq_getElem?_getD, List.getElem?_replicate]
    split <;> rfl

/-- **The ladder over a life**: the books are sound after every bar exactly when no bar crosses an executed tier
at the entry or on its losing side again while there is something left for it. -/
theorem sound_iff (m : IqLifecycleManager) (tradeId : Uuid) (polarity : IqPolarity) (entryBar : ℕ)
    (entryTime : DateTime) (entryPrice stopLoss : ℚ) (takeProfits : List ℚ) {initialQty : ℚ}
    (hq : 0 < initialQty) (bars : List Bar) :
    AllStates (step m) Sound (pending tradeId polarity entryBar entryTime entryPrice stopLoss
        takeProfits initialQty).opened bars ↔
      AllSteps (step m) NotAgain (pending tradeId polarity entryBar entryTime entryPrice stopLoss
        takeProfits initialQty).opened bars := by
  have hstart := running_pending tradeId polarity entryBar entryTime entryPrice stopLoss takeProfits hq
  exact @allStates_iff_allSteps _ _ _ (fun t => Sound t ∧ (t.Active → Running t)) _ _ (fun _ => True)
    (fun _ h => h.1) (fun _ _ h _ hn => step_running h.2 h.1 hn)
    (fun _ _ h _ hn => not_sound_of_again h.2 hn) _ _ ⟨hstart.toSound, fun _ => hstart⟩ fun _ _ => trivial

/-- The default costs, no trail and no hook. -/
def plainManager : IqLifecycleManager := ⟨⟨4 / 10000, 2 / 10000, 1 / 10000⟩, none, 10, none⟩

/-- A long of one at 100 with its stop at 90. -/
def longTrade (takeProfits : List ℚ) : IqTrade :=
  (pending 1 .dip 0 0 100 90 takeProfits 1).opened

theorem sound_two_targets :
    AllStates (step plainManager) Sound (longTrade [110, 120]) [⟨1, 60, 112, 99, 111⟩, ⟨2, 120, 111, 85, 86⟩] :=
  (sound_iff plainManager 1 .dip 0 0 100 90 [110, 120] (by decide) _).2 (by decide +kernel)

/-- A first target at the entry is taken twice, and the position is gone. -/
theorem target_at_entry_taken_twice :
    ¬ AllStates (step plainManager) Sound (longTrade [100, 200])
      [⟨1, 60, 101, 99, 100⟩, ⟨2, 120, 101, 99, 100⟩] := by
  decide +kernel

end Qtss.Backtest.Iq
