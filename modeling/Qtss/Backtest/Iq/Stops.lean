import Qtss.Backtest.Iq.Ladder
/-
# The stop: which level of a bar comes first, and the trail

The module comment of manager.rs resolves a bar that touches both the stop and a target against the
trade ("Check SL" is step 2, before the targets; "SL hits BEFORE any TP", :176). The code runs the
tier loop first, so the bar is resolved that way exactly when the tier loop has nothing to do
(`pessimistic_iff`).

The trail's distance is documented as the initial stop distance. The code takes it from the stop it
has moved already, and tightens only while a filled tier is seen (`trail_iff`).
-/

namespace Qtss.Backtest.Iq
open Runs IqLifecycleManager IqTrade

/-! ## The order of the levels of a bar -/

/-- A level of a trade that a bar touches. -/
inductive Level where
  | stop
  | tier (i : ℕ)
deriving DecidableEq

/-- What is left and the gross pnl after a level is filled. -/
def Level.fill (t : IqTrade) : ℚ × ℚ → Level → ℚ × ℚ
  | (left, gross), .stop => (0, gross + slicePnl t.entryPrice t.stopLoss left t.long)
  | (left, gross), .tier i =>
    let slice := min (t.tierQty i) left
    if slice ≤ 0 then (left, gross)
    else
      (left - slice, gross + slicePnl t.entryPrice (t.takeProfits.getD i 0) slice t.long)

/-- The gross pnl when the levels are filled in this order. -/
def grossUnder (t : IqTrade) (order : List Level) : ℚ :=
  (order.foldl (Level.fill t) (t.remainingQty, t.grossPnl)).2

/-- The stop and the due targets. -/
def touchedLevels (bar : Bar) (t : IqTrade) : List Level :=
  .stop :: ((List.range t.takeProfits.length).filter fun i => decide (Due bar t i)).map .tier

/-- Stop first: all that was left is closed at the stop, no target of the bar is credited, and no
order of the touched levels would have made less. -/
structure Pessimistic (m : IqLifecycleManager) (bar : Bar) (t : IqTrade) : Prop where
  slices : (step m t bar).slices = t.slices ++ [⟨.stop, t.remainingQty, t.stopLoss⟩]
  closed : (step m t bar).state = .closed ∧ (step m t bar).exitPrice = some t.stopLoss
    ∧ (step m t bar).remainingQty = 0
  noTier : ∀ i < t.takeProfits.length, (step m t bar).tierPnl i = t.tierPnl i
  worst : ∀ order : List Level, order.Perm (touchedLevels bar t) →
    (step m t bar).grossPnl ≤ grossUnder t order

section order
variable {m : IqLifecycleManager} {bar : Bar} {t : IqTrade}

/-- With a position and a ladder the first due tier is reached. -/
theorem reached_nil_iff (hleft : 0 < t.remainingQty) :
    reached bar t = [] ↔ t.initialQty ≤ 0 ∨ ∀ i, ¬ Due bar t i := by
  constructor
  · intro h
    refine or_iff_not_imp_left.2 fun hq i hd => ?_
    classical
    have hex : ∃ i, Due bar t i := ⟨i, hd⟩
    have hahead : ahead bar t (Nat.find hex) = 0 := by
      have hnil : ((List.range (Nat.find hex)).filter fun j => decide (Due bar t j)) = [] := by
        rw [List.filter_eq_nil_iff]
        intro j hj
        simpa using Nat.find_min hex (List.mem_range.1 hj)
      rw [ahead, hnil]
      rfl
    have hfirst : Nat.find hex ∈ reached bar t :=
      List.mem_filter.2 ⟨List.mem_range.2 (Nat.find_spec hex).1,
        decide_eq_true ⟨Nat.find_spec hex, not_le.1 hq, hahead ▸ hleft⟩⟩
    rw [h] at hfirst
    cases hfirst
  · intro h
    rw [reached, List.filter_eq_nil_iff]
    rintro i - hr
    obtain ⟨hd, hq, -⟩ := of_decide_eq_true hr
    rcases h with h | h
    exacts [absurd hq h.not_gt, h i hd]

theorem fill_tier_of_nonpos (hq : t.initialQty ≤ 0) (i : ℕ) (s : ℚ × ℚ) :
    (Level.tier i).fill t s = s := by
  have hslice : min (t.tierQty i) s.1 ≤ 0 :=
    (min_le_left _ _).trans (mul_nonpos_of_nonpos_of_nonneg hq (fraction_pos _ _).le)
  exact if_pos hslice

/-- Targets that fill nothing leave only the stop. -/
theorem foldl_fill_stop (hq : t.initialQty ≤ 0) {order : List Level} (hstop : order.count .stop = 1)
    (s : ℚ × ℚ) : order.foldl (Level.fill t) s = Level.stop.fill t s := by
  have hrest : ∀ (l : List Level) (s : ℚ × ℚ), .stop ∉ l → l.foldl (Level.fill t) s = s := by
    intro l
    induction l with
    | nil => exact fun _ _ => rfl
    | cons x l ih =>
      intro s hl
      rw [List.mem_cons, not_or] at hl
      cases x with
      | stop => exact absurd rfl hl.1
      | tier i => rw [List.foldl_cons, fill_tier_of_nonpos hq, ih s hl.2]
  induction order generalizing s with
  | nil => cases hstop
  | cons x l ih =>
    cases x with
    | stop =>
      rw [List.count_cons_self] at hstop
      exact hrest l _ (List.count_eq_zero.1 (by omega))
    | tier i =>
      have hne : Level.tier i ≠ Level.stop := nofun
      rw [List.count_cons_of_ne hne] at hstop
      rw [List.foldl_cons, fill_tier_of_nonpos hq, ih hstop]

/-- Without a target to fill every order makes what the stop makes. -/
theorem grossUnder_eq (h : t.initialQty ≤ 0 ∨ ∀ i, ¬ Due bar t i) {order : List Level}
    (hperm : order.Perm (touchedLevels bar t)) :
    grossUnder t order =
      t.grossPnl + slicePnl t.entryPrice t.stopLoss t.remainingQty t.long := by
  rcases h with hq | hno
  · have hnone : Level.stop ∉ ((List.range t.takeProfits.length).filter
        fun i => decide (Due bar t i)).map .tier := by
      rw [List.mem_map]
      rintro ⟨i, -, hi⟩
      cases hi
    have hcount : order.count .stop = 1 := by
      rw [hperm.count_eq, touchedLevels, List.count_cons_self, List.count_eq_zero.2 hnone]
    rw [grossUnder, foldl_fill_stop hq hcount]
    rfl
  · have hnil : ((List.range t.takeProfits.length).filter fun i => decide (Due bar t i)) = [] := by
      rw [List.filter_eq_nil_iff]
      exact fun i _ hd => hno i (of_decide_eq_true hd)
    rw [touchedLevels, hnil, List.map_nil] at hperm
    rw [List.perm_singleton.1 hperm]
    rfl

section finalize
variable {exitBar : ℕ} {exitTime : DateTime} {price : ℚ} {outcome : TradeOutcome}

theorem finalize_frame (t : IqTrade) :
    (finalize t exitBar exitTime price outcome).slices = t.slices
    ∧ (finalize t exitBar exitTime price outcome).remainingQty = t.remainingQty
    ∧ (finalize t exitBar exitTime price outcome).tierPnls = t.tierPnls
    ∧ (finalize t exitBar exitTime price outcome).grossPnl = t.grossPnl := by
  unfold finalize
  split <;> exact ⟨rfl, rfl, rfl, rfl⟩

theorem finalize_closed (ha : t.Active) :
    (finalize t exitBar exitTime price outcome).state = .closed
    ∧ (finalize t exitBar exitTime price outcome).exitPrice = some price := by
  have hopen : ¬ (t.state = .closed ∨ t.state = .aborted) := by
    rcases ha with h | h <;> simp [h]
  rw [finalize, if_neg hopen]
  exact ⟨rfl, rfl⟩

end finalize

/-- With nothing for the tier loop the stop takes all that is left. -/
theorem step_stopped (ha : t.Active) (hs : stopTouched bar t) (hleft : 0 < t.remainingQty)
    (hnil : reached bar t = []) : ∃ outcome, step m t bar =
      finalize (m.realiseRest (t.observePath bar.close t.long) .stop t.stopLoss bar.time t.long)
        bar.index bar.time t.stopLoss outcome := by
  obtain ⟨filled, -, honTrade⟩ := @onTrade_active m bar t ha
  have hlad : laddered m bar t = t.observePath bar.close t.long := by rw [laddered, hnil]; rfl
  rw [step, honTrade, hlad, settle, if_pos ⟨decide_eq_true hs, hleft⟩]
  exact ⟨_, rfl⟩

/-- Only a touched stop with something left makes a stop slice. -/
theorem settle_stop_slices {long slHit : Bool} {filled : List Bool}
    (h : ¬ (slHit ∧ t.remainingQty > 0)) :
    (m.settle bar long slHit filled t).trade.slices.filter (·.cause = .stop) =
      t.slices.filter (·.cause = .stop) := by
  have := @settle_rec m bar t (fun t' => t'.slices = t.slices ∧ t'.remainingQty = t.remainingQty)
    (fun t' => t'.slices.filter (·.cause = .stop) = t.slices.filter (·.cause = .stop)) long slHit filled
    ⟨rfl, rfl⟩ (fun t' mult ht => by rw [tighten_eq]; exact ht)
    (fun t' cause price ht _ hstop => ?_) (fun t' ht => by rw [ht.1])
    (fun t' price outcome ht => by unfold finalize; split <;> exact ht)
  · rcases this with ⟨t', hs, hq, -⟩ | ⟨t', hs, hp, -⟩
    · rw [hs]
      exact hq
    · rw [hs]
      exact congrArg _ hp.1
  · have hne : cause ≠ .stop := fun hc => h (ht.2 ▸ hstop hc)
    show (t'.slices ++ [_]).filter _ = _
    rw [List.filter_append, ht.1]
    simp [hne]

/-- **Stop and target on one bar**: resolved against the trade exactly when something is left and no
target of the bar is due (or the position is not positive, so that no target takes anything). -/
theorem pessimistic_iff (ha : t.Active) (hs : stopTouched bar t) :
    Pessimistic m bar t ↔ 0 < t.remainingQty ∧ (t.initialQty ≤ 0 ∨ ∀ i, ¬ Due bar t i) := by
  constructor
  · intro h
    have hnil : reached bar t = [] := by
      have htiers : (step m t bar).executedTiers = t.executedTiers := by
        have hexit : executedTiers
            { t with slices := t.slices ++ [⟨.stop, t.remainingQty, t.stopLoss⟩] } = t.executedTiers :=
          executedTiers_append_exit (nofun : ∀ i, Cause.stop ≠ .tier i) _ _
        rw [← hexit, executedTiers, h.slices]
        rfl
      rw [step_executed ha] at htiers
      simpa using htiers
    have hleft : 0 < t.remainingQty := by
      by_contra hleft
      obtain ⟨filled, -, honTrade⟩ := @onTrade_active m bar t ha
      have hlad : laddered m bar t = t.observePath bar.close t.long := by rw [laddered, hnil]; rfl
      have hstop := @settle_stop_slices m bar (t.observePath bar.close t.long) t.long
        (decide (stopTouched bar t)) filled fun hh => hleft hh.2
      rw [← hlad, ← honTrade] at hstop
      have hslices := congrArg (List.filter fun s : Slice => decide (s.cause = .stop)) h.slices
      rw [step, hstop, hlad, List.filter_append] at hslices
      have hlen := congrArg List.length hslices
      simp [observePath] at hlen
    exact ⟨hleft, (reached_nil_iff hleft).1 hnil⟩
  · rintro ⟨hleft, hno⟩
    obtain ⟨outcome, hstep⟩ := @step_stopped m bar t ha hs hleft ((reached_nil_iff hleft).2 hno)
    obtain ⟨hslices, hrem, htiers, hgross⟩ := @finalize_frame bar.index bar.time t.stopLoss outcome
      (m.realiseRest (t.observePath bar.close t.long) .stop t.stopLoss bar.time t.long)
    obtain ⟨hclosed, hexit⟩ := @finalize_closed
      (m.realiseRest (t.observePath bar.close t.long) .stop t.stopLoss bar.time t.long) bar.index
      bar.time t.stopLoss outcome ha
    refine ⟨?_, ?_, ?_, ?_⟩
    · rw [hstep, hslices]
      rfl
    · rw [hstep]
      exact ⟨hclosed, hexit, hrem.trans realiseRest_remainingQty⟩
    · intro i hi
      have hlast : i ≠ t.tierPnls.length - 1 := by rw [t.tiers]; omega
      rw [tierPnl, hstep, htiers]
      exact creditTier_tierPnl (t := m.realiseSlice (t.observePath bar.close t.long) _ _ _ _ _) hlast _
    · intro order hperm
      rw [grossUnder_eq hno hperm, hstep, hgross]
      exact le_rfl

end order

/-- A bar that spans the stop at 90 and the target at 110. -/
def wideBar : Bar := ⟨1, 60, 115, 85, 100⟩

theorem pessimistic_without_target :
    Pessimistic plainManager wideBar (longTrade [120]) ↔
      0 < (longTrade [120]).remainingQty
      ∧ ((longTrade [120]).initialQty ≤ 0 ∨ ∀ i, ¬ Due wideBar (longTrade [120]) i) :=
  pessimistic_iff (by decide +kernel) (by decide +kernel)

/-- The target is taken and the whole position with it: ten made instead of ten lost. -/
theorem target_before_stop : (step plainManager (longTrade [110]) wideBar).grossPnl = 10
    ∧ ¬ Pessimistic plainManager wideBar (longTrade [110]) := by
  refine ⟨by decide +kernel, fun h => ?_⟩
  exact absurd h.closed.2.1 (by decide +kernel)

/-! ## The trail -/

/-- The bar leaves the trade open with some tier executed. -/
def Trails (m : IqLifecycleManager) (t : IqTrade) (bar : Bar) : Prop :=
  t.Active ∧ (step m t bar).Active ∧ t.executedTiers ++ reached bar t ≠ []

instance (m : IqLifecycleManager) (t : IqTrade) (bar : Bar) : Decidable (Trails m t bar) :=
  inferInstanceAs (Decidable (_ ∧ _ ∧ _))

/-- The close less `distance`, on the losing side. -/
def trailAt (t : IqTrade) (bar : Bar) (distance : ℚ) : ℚ :=
  if t.long then bar.close - distance else bar.close + distance

/-- `s` is tighter than the stop. -/
def Tightens (t : IqTrade) (s : ℚ) : Prop := if t.long then t.stopLoss < s else s < t.stopLoss

instance (t : IqTrade) (s : ℚ) : Decidable (Tightens t s) := by
  unfold Tightens
  infer_instance

/-- The tighter of the stop and `s`. -/
def tighter (t : IqTrade) (s : ℚ) : ℚ := if t.long then max t.stopLoss s else min t.stopLoss s

/-- The documented trail: `mult` times the distance `D` that the stop had at entry, from the close. -/
def TrailLaw (m : IqLifecycleManager) (mult D : ℚ) (t : IqTrade) (bar : Bar) : Prop :=
  Trails m t bar → (step m t bar).stopLoss = tighter t (trailAt t bar (mult * D))

instance (m : IqLifecycleManager) (mult D : ℚ) (t : IqTrade) (bar : Bar) :
    Decidable (TrailLaw m mult D t bar) :=
  inferInstanceAs (Decidable (_ → _))

/-- `s` is no looser than `s'`. -/
def NoLooser (long : Bool) (s' s : ℚ) : Prop := if long then s' ≤ s else s ≤ s'

/-- The stop never moves to the losing side. -/
def NeverLoosens (m : IqLifecycleManager) (t : IqTrade) (bar : Bar) : Prop :=
  NoLooser t.long t.stopLoss (step m t bar).stopLoss

/-- On a bar the trail is for: if a filled tier is seen, the stop is still (or again) the initial
distance from the entry, or neither distance tightens it; if none is seen, the initial distance does
not tighten it. -/
def Steady (m : IqLifecycleManager) (mult D : ℚ) (t : IqTrade) (bar : Bar) : Prop :=
  Trails m t bar →
    if SeenFilled bar t then
      |t.entryPrice - t.stopLoss| = D
      ∨ (¬ Tightens t (trailAt t bar (mult * |t.entryPrice - t.stopLoss|))
        ∧ ¬ Tightens t (trailAt t bar (mult * D)))
    else ¬ Tightens t (trailAt t bar (mult * D))

section trail
variable {m : IqLifecycleManager} {bar : Bar} {t : IqTrade} {mult D : ℚ}

theorem tighter_eq_self {s : ℚ} : tighter t s = t.stopLoss ↔ ¬ Tightens t s := by
  unfold tighter Tightens
  split
  · rw [max_eq_left_iff, not_lt]
  · rw [min_eq_left_iff, not_lt]

theorem tighter_eq_iff {s s' : ℚ} :
    tighter t s = tighter t s' ↔ s = s' ∨ (¬ Tightens t s ∧ ¬ Tightens t s') := by
  unfold tighter Tightens
  split
  · simp only [not_lt]
    grind
  · simp only [not_lt]
    grind

theorem trailAt_inj {d d' : ℚ} : trailAt t bar d = trailAt t bar d' ↔ d = d' := by
  unfold trailAt
  split
  · rw [sub_right_inj]
  · rw [add_right_inj]

/-- The tier loop leaves the levels of the trade as they were. -/
theorem foldl_hit_levels (l : List ℕ) :
    (l.foldl (hit m bar) t).stopLoss = t.stopLoss ∧ (l.foldl (hit m bar) t).entryPrice = t.entryPrice
    ∧ (l.foldl (hit m bar) t).polarity = t.polarity := by
  induction l generalizing t with
  | nil => exact ⟨rfl, rfl, rfl⟩
  | cons i l ih => exact ih

theorem laddered_levels : (laddered m bar t).stopLoss = t.stopLoss
    ∧ (laddered m bar t).entryPrice = t.entryPrice ∧ (laddered m bar t).long = t.long := by
  obtain ⟨h1, h2, h3⟩ := @foldl_hit_levels m bar (t.observePath bar.close t.long) (reached bar t)
  exact ⟨h1, h2, congrArg (fun p => decide (p = IqPolarity.dip)) h3⟩

theorem tighten_stopLoss :
    (tighten bar t.long mult t).stopLoss = tighter t (trailAt t bar (mult * |t.entryPrice - t.stopLoss|)) := by
  rw [tighten_eq, mul_comm mult]
  unfold tighter trailAt
  cases t.long <;> rfl

/-- The trailing branch of a trade that stays open. -/
theorem trailingStop_stopLoss {filled : List Bool} {t' : IqTrade}
    (hm : m.trailingStopAtrMult = some mult) (hpos : 0 < mult)
    (h : m.trailingStop bar t.long filled t = .keep t') :
    t'.stopLoss = if filled.any id then tighter t (trailAt t bar (mult * |t.entryPrice - t.stopLoss|))
      else t.stopLoss := by
  unfold trailingStop at h
  rw [hm] at h
  simp only [gt_iff_lt, hpos, and_true] at h
  split at h
  · rename_i hany
    split at h
    · cases h
    · rw [if_pos hany, ← Disposition.keep.inj h, tighten_stopLoss]
  · rename_i hany
    rw [if_neg hany, Disposition.keep.inj h]

/-- Where the code puts the stop of a trade that stays open. -/
theorem step_stopLoss (hm : m.trailingStopAtrMult = some mult) (hpos : 0 < mult) (ha : t.Active)
    (hopen : (step m t bar).Active) :
    (step m t bar).stopLoss =
      if SeenFilled bar t then tighter t (trailAt t bar (mult * |t.entryPrice - t.stopLoss|))
      else t.stopLoss := by
  obtain ⟨filled, hseen, honTrade⟩ := @onTrade_active m bar t ha
  obtain ⟨hstop, hentry, hlong⟩ := @laddered_levels m bar t
  have := @settle_rec m bar (laddered m bar t) (fun _ => True) (fun _ => True) t.long
    (decide (stopTouched bar t)) filled trivial (fun _ _ h => h) (fun _ _ _ h _ _ => h) (fun _ h => h)
    fun _ _ _ h => h
  rcases this with ⟨t', hs, -, hna⟩ | ⟨t', hs, -, htrail⟩
  · rw [step, honTrade, hs] at hopen
    exact absurd hopen hna
  · rw [← hlong] at htrail
    have hstopLoss := trailingStop_stopLoss hm hpos htrail
    rw [step, honTrade, hs]
    show t'.stopLoss = _
    rw [hstopLoss]
    unfold tighter trailAt
    rw [hstop, hentry, hlong]
    simp only [hseen]

theorem noLooser_tighten (long : Bool) (mult : ℚ) :
    NoLooser long t.stopLoss (tighten bar long mult t).stopLoss := by
  rw [tighten_eq]
  cases long
  · exact min_le_left _ _
  · exact le_max_left _ _

theorem NoLooser.trans {long : Bool} {a b c : ℚ} (h : NoLooser long a b) (h' : NoLooser long b c) :
    NoLooser long a c := by
  cases long
  · exact le_trans (show c ≤ b from h') h
  · exact le_trans (show a ≤ b from h) h'

theorem NoLooser.refl {long : Bool} (a : ℚ) : NoLooser long a a := by
  cases long <;> exact le_refl a

/-- The stop only tightens. -/
theorem neverLoosens (m : IqLifecycleManager) (t : IqTrade) (bar : Bar) : NeverLoosens m t bar := by
  unfold NeverLoosens
  by_cases ha : t.Active
  · obtain ⟨filled, -, honTrade⟩ := @onTrade_active m bar t ha
    have := @settle_rec m bar (laddered m bar t) (fun t' => NoLooser t.long t.stopLoss t'.stopLoss)
      (fun t' => NoLooser t.long t.stopLoss t'.stopLoss) t.long (decide (stopTouched bar t)) filled
      (laddered_levels.1 ▸ .refl _) (fun t' mult h => h.trans (noLooser_tighten _ mult))
      (fun _ _ _ h _ _ => h) (fun _ h => h) fun t' price outcome h => by
        unfold finalize
        split <;> exact h
    rw [step, honTrade]
    rcases this with ⟨t', hs, h, -⟩ | ⟨t', hs, h, -⟩ <;> rw [hs] <;> exact h
  · rw [step_inactive ha]
    exact .refl _

/-- **One bar of the trail**. -/
theorem trailLaw_iff (hm : m.trailingStopAtrMult = some mult) (hpos : 0 < mult) :
    TrailLaw m mult D t bar ↔ Steady m mult D t bar := by
  unfold TrailLaw Steady
  by_cases ht : Trails m t bar
  · obtain ⟨ha, hopen, -⟩ := id ht
    rw [step_stopLoss hm hpos ha hopen]
    simp only [ht, true_imp_iff]
    split
    · rw [tighter_eq_iff, trailAt_inj, mul_right_inj' hpos.ne']
    · rw [eq_comm, tighter_eq_self]
  · simp [ht]

end trail

/-- **The trail over a life**: on every bar that leaves the trade open with a tier executed the stop is
the tighter of the one before and the close less `mult` times the distance at entry, and it never
loosens, exactly when every bar is steady. -/
theorem trail_iff {m : IqLifecycleManager} {mult : ℚ} (hm : m.trailingStopAtrMult = some mult)
    (hpos : 0 < mult) (tradeId : Uuid) (polarity : IqPolarity) (entryBar : ℕ) (entryTime : DateTime)
    (entryPrice stopLoss : ℚ) (takeProfits : List ℚ) (initialQty : ℚ) (bars : List Bar) :
    AllSteps (step m)
        (fun t bar => TrailLaw m mult |entryPrice - stopLoss| t bar ∧ NeverLoosens m t bar)
        (pending tradeId polarity entryBar entryTime entryPrice stopLoss takeProfits
          initialQty).opened bars ↔
      AllSteps (step m) (Steady m mult |entryPrice - stopLoss|)
        (pending tradeId polarity entryBar entryTime entryPrice stopLoss takeProfits
          initialQty).opened bars :=
  @allSteps_congr _ _ _ (fun _ => True) _ (fun _ => True) _ (fun _ _ h _ => h)
    (fun _ _ _ _ => (and_iff_left (neverLoosens m _ _)).trans (trailLaw_iff hm hpos)) _ _ trivial
    fun _ _ => trivial

/-- The trail at half the initial distance. -/
def trailingManager : IqLifecycleManager := { plainManager with trailingStopAtrMult := some (1 / 2) }

theorem trail_tightened_once :
    AllSteps (step trailingManager)
        (fun t bar => TrailLaw trailingManager (1 / 2) |100 - 90| t bar ∧ NeverLoosens trailingManager t bar)
        (longTrade [110, 200]) [⟨1, 60, 110, 100, 110⟩] ↔
      AllSteps (step trailingManager) (Steady trailingManager (1 / 2) |100 - 90|)
        (longTrade [110, 200]) [⟨1, 60, 110, 100, 110⟩] :=
  trail_iff rfl (by norm_num) 1 .dip 0 0 100 90 [110, 200] 1 _

/-- After the first tightening (90 to 105) the distance is 5, and the stop goes to 112.5, not 110. -/
theorem second_tightening_halved :
    ¬ AllSteps (step trailingManager) (TrailLaw trailingManager (1 / 2) |100 - 90|)
      (longTrade [110, 200]) [⟨1, 60, 110, 100, 110⟩, ⟨2, 120, 115, 106, 115⟩] := by
  decide +kernel

end Qtss.Backtest.Iq
