import Qtss.Engine.Harmonic
import Qtss.Engine.Orb
import Qtss.Worker.OutcomeTracker
/-
# The bars a pattern is made of, and its outcome

The tracker "replays the bars forward from `start_time`", and the entry is the price of the last anchor, at `end_time`.
So the bars of the formation are replayed as well, from `start_time` up to `end_time`: they can touch the stop or a
target (`evaluateOne_formation`), they count for `mfe` and `mae`, and they use up the cap. What is recorded is the same
for any two series that agree from `start_time` on. That it is the same for any two that agree from `end_time` on holds
only where there is no bar in between or nothing is recorded (`blind_iff`).
-/

namespace Qtss.Worker.Outcomes
open Engine

/-- What is recorded: outcome, hit count, price, `mfe` and `mae`. -/
def PatternOutcome.record (o : PatternOutcome) : OutcomeKind × ℕ × Option ℚ × ℚ × ℚ :=
  (o.outcome, o.tpHitCount, o.outcomePrice, o.mfe, o.mae)

/-- Two series that agree from `end_time` on, with the bars of a whole replay there, record the same. -/
def BlindToFormation (ttlBars : ℤ) (r : DetectionKey × Detection) : Prop :=
  ∀ s₁ s₂ : BarSeries, s₁.since r.1.endTime = s₂.since r.1.endTime →
    (ttlBars + 1).toNat ≤ (s₁.since r.1.endTime).length →
      (evaluateOne ttlBars r.1 r.2 s₁).map (·.record) = (evaluateOne ttlBars r.1 r.2 s₂).map (·.record)

variable {ttlBars : ℤ} {k : DetectionKey} {d : Detection} {t : Targets} {s s₁ s₂ : BarSeries} {a b : DateTime}

/-! ## What the bars are read for -/

theorem since_eq_filter (h : b ≤ a) : s.since a = (s.since b).filter (a ≤ ·.openTime) := by
  unfold BarSeries.since
  rw [List.filter_filter]
  refine List.filter_congr fun bar _ => ?_
  have hb : a ≤ bar.openTime → b ≤ bar.openTime := h.trans
  by_cases ha : a ≤ bar.openTime
  · simp [ha, hb ha]
  · simp [ha]

/-- Only the bars from `start_time` on are read. -/
theorem evaluateOne_congr (h : s₁.since k.startTime = s₂.since k.startTime) :
    evaluateOne ttlBars k d s₁ = evaluateOne ttlBars k d s₂ := by
  unfold evaluateOne forwardBars
  rw [h]

theorem evaluateOne_of_targets (ht : targetsOf k d = some t) (hs : s.since k.startTime ≠ []) (hcap : 0 ≤ ttlBars) :
    evaluateOne ttlBars k d s = some (gradeBars ttlBars t (forwardBars ttlBars k.startTime s)) := by
  have hfull : ¬ (forwardBars ttlBars k.startTime s).isEmpty := by
    rw [forwardBars_isEmpty]
    exact not_or.2 ⟨hs, not_lt.2 hcap⟩
  unfold evaluateOne
  simp [ht, hfull]

/-- A bar of the formation that touches the stop or a target decides, whatever comes after. -/
theorem evaluateOne_formation {formation more₁ more₂ : List MarketBarRow} (ht : targetsOf k d = some t)
    (h₁ : s₁.since k.startTime = formation ++ more₁) (h₂ : s₂.since k.startTime = formation ++ more₂)
    (hcap : formation.length ≤ ttlBars) (hdecided : ¬ Undecided t formation) :
    evaluateOne ttlBars k d s₁ = evaluateOne ttlBars k d s₂ := by
  have hne : formation ≠ [] := by
    rintro rfl
    exact hdecided fun _ hb => nomatch hb
  have hforward : ∀ {s : BarSeries} {more}, s.since k.startTime = formation ++ more →
      ∃ more', forwardBars ttlBars k.startTime s = formation ++ more' := by
    intro s more hs
    rw [forwardBars, hs, List.take_append, List.take_of_length_le (by omega)]
    exact ⟨_, rfl⟩
  have hgrade : ∀ more, gradeBars ttlBars t (formation ++ more) = gradeBars ttlBars t formation := by
    intro more
    unfold gradeBars
    rw [walk_decided_append hdecided]
    cases hwalk : walk t 0 0 0 formation with
    | mk hit excursions =>
      cases hit with
      | some hit => rfl
      | none => exact absurd hwalk (walk_ne_none hdecided)
  obtain ⟨more₁', hf₁⟩ := hforward h₁
  obtain ⟨more₂', hf₂⟩ := hforward h₂
  rw [evaluateOne_of_targets ht (by simp [h₁, hne]) (by omega), evaluateOne_of_targets ht (by simp [h₂, hne]) (by omega),
    hf₁, hf₂, hgrade, hgrade]

/-! ## When the formation does not matter -/

/-- `n` bars that stay at a price. -/
def flatBars (price : ℚ) (start : DateTime) (n : ℕ) : List MarketBarRow :=
  (List.range n).map fun i : ℕ => ⟨start + i, price, price, price, 0⟩

theorem flatBars_ascending (price : ℚ) (start : DateTime) (n : ℕ) :
    (flatBars price start n).Pairwise (·.openTime < ·.openTime) := by
  refine List.pairwise_map.2 (List.pairwise_lt_range.imp fun hlt => ?_)
  exact Int.add_lt_add_left (Int.ofNat_lt.2 hlt) _

theorem le_openTime_of_flatBars {price : ℚ} {start : DateTime} {n : ℕ} {bar : MarketBarRow}
    (h : bar ∈ flatBars price start n) : start ≤ bar.openTime := by
  obtain ⟨i, -, rfl⟩ := List.mem_map.1 h
  exact Int.le_add_of_nonneg_right (Int.natCast_nonneg i)

theorem adverse_flatBars {start : DateTime} {n : ℕ} {bar : MarketBarRow} (h : bar ∈ flatBars t.entry start n) :
    t.adverse bar ≤ 0 := by
  obtain ⟨i, -, rfl⟩ := List.mem_map.1 h
  simp [Targets.adverse]

/-- One bar before the entry goes against it, and nothing happens afterwards. -/
theorem not_blind (ht : targetsOf k d = some t) (hlt : k.startTime < k.endTime) (hcap : 0 ≤ ttlBars) :
    ¬ BlindToFormation ttlBars (k, d) := by
  let n := (ttlBars + 1).toNat
  have hn : 0 < n := by omega
  let flat := flatBars t.entry k.endTime n
  let spike : MarketBarRow := ⟨k.startTime, t.entry + 1, t.entry - 1, t.entry, 0⟩
  have hlater : ∀ b ∈ flat, k.endTime ≤ b.openTime := fun b => le_openTime_of_flatBars
  have hasc := flatBars_ascending t.entry k.endTime n
  let quiet : BarSeries := ⟨flat, hasc⟩
  let spiked : BarSeries := ⟨spike :: flat, List.pairwise_cons.2 ⟨fun b hb => hlt.trans_le (hlater b hb), hasc⟩⟩
  have hall : ∀ c ≤ k.endTime, quiet.since c = flat := fun c hc =>
    List.filter_eq_self.2 fun b hb => decide_eq_true (hc.trans (hlater b hb))
  have hspikedEnd : spiked.since k.endTime = flat := by
    rw [BarSeries.since, List.filter_cons_of_neg (by simpa [spike] using hlt)]
    exact hall _ le_rfl
  have hspikedStart : spiked.since k.startTime = spike :: flat := by
    rw [BarSeries.since, List.filter_cons_of_pos (by simp [spike])]
    exact congrArg _ (hall _ hlt.le)
  have hlen : flat.length = n := by simp [flat, flatBars]
  have hne : flat ≠ [] := List.ne_nil_of_length_pos (hlen.symm ▸ hn)
  intro hblind
  have hsame := hblind spiked quiet (hspikedEnd.trans (hall _ le_rfl).symm) (by rw [hspikedEnd, hlen])
  rw [evaluateOne_of_targets ht (by simp [hspikedStart]) hcap,
    evaluateOne_of_targets ht (by rwa [hall _ hlt.le]) hcap, Option.map_some, Option.map_some,
    Option.some.injEq] at hsame
  have hmae := congrArg (fun r => r.2.2.2.2) hsame
  simp only [PatternOutcome.record, gradeBars_mae, forwardBars, hspikedStart, hall _ hlt.le] at hmae
  have hup : 1 ≤ (walk t 0 0 0 ((spike :: flat).take n)).2.2 := by
    rw [← Nat.succ_pred_eq_of_pos hn, List.take_succ_cons]
    refine le_trans (le_of_eq ?_) adverse_le_walk_mae
    simp [Targets.adverse, spike]
  have hdown : (walk t 0 0 0 (flat.take n)).2.2 ≤ 0 :=
    walk_mae_le le_rfl fun b hb => adverse_flatBars (List.mem_of_mem_take hb)
  have : (1 : ℚ) ≤ 0 := hup.trans (hmae.le.trans hdown)
  exact absurd this (by norm_num)

/-- **A row is blind to its formation** exactly when no bar can be in it or nothing is ever recorded. -/
theorem blind_iff (k : DetectionKey) (d : Detection) :
    BlindToFormation ttlBars (k, d) ↔ k.endTime ≤ k.startTime ∨ ttlBars < 0 ∨ targetsOf k d = none := by
  constructor
  · intro hblind
    by_contra hnot
    obtain ⟨hlt, hcap, hgraded⟩ := not_or.1 hnot |>.imp_right not_or.1
    obtain ⟨t, ht⟩ := Option.ne_none_iff_exists'.1 hgraded
    exact not_blind ht (not_le.1 hlt) (not_lt.1 hcap) hblind
  · have hskipped : ∀ s : BarSeries, ttlBars < 0 ∨ targetsOf k d = none → evaluateOne ttlBars k d s = none := by
      intro s h
      rw [← Option.not_isSome_iff_eq_none, isSome_evaluateOne]
      rintro ⟨hgraded, -, hcap⟩
      rcases h with h | h
      · exact absurd h (not_lt.2 hcap)
      · simp [h] at hgraded
    rintro (hle | hskip) s₁ s₂ hagree -
    · exact congrArg _ (evaluateOne_congr (by rw [since_eq_filter hle, since_eq_filter hle (s := s₂), hagree]))
    · rw [hskipped s₁ hskip, hskipped s₂ hskip]

/-! ## Harmonic and opening range rows -/

section written
variable {exp : ℚ → ℚ} {rfc3339 : DateTime → String} {series : Series}

/-- A harmonic row has its five prices, and so a stop. -/
theorem isSome_targetsOf_harmonic {slot : ℤ} {w : Window} {spec : HarmonicSpec} {score : ℚ} :
    (targetsOf (harmonicDetection rfc3339 series slot w spec score).1
      (harmonicDetection rfc3339 series slot w spec score).2).isSome := by
  have hx : anchorPrice (anchorsJson rfc3339 w) "X" = some w.x.price := rfl
  have ha : anchorPrice (anchorsJson rfc3339 w) "A" = some w.a.price := rfl
  have hc : anchorPrice (anchorsJson rfc3339 w) "C" = some w.c.price := rfl
  have hd : anchorPrice (anchorsJson rfc3339 w) "D" = some w.d.price := rfl
  simp [targetsOf, harmonicDetection, entryPrice, resolveTargets, harmonicTargets, hx, ha, hc, hd]

/-- The entry of an opening range row is the close that broke out, and its stop the low of the range, on both sides. -/
theorem targetsOf_orb {cfg : OrbConfig} {avgVol : ℚ} {r : OpeningRange} {j : ℕ} {bar : MarketBarRow} {side : Breakout} :
    let row := orbDetection rfc3339 cfg series avgVol r j bar side
    targetsOf row.1 row.2 = none ↔ lastAnchorPrice row.2.anchors = rawF64 row.2.rawMeta "or_low" := by
  intro row
  have hentry : entryPrice row.2.anchors = some bar.close := rfl
  have hlast : lastAnchorPrice row.2.anchors = some bar.close := rfl
  have hlow : rawF64 row.2.rawMeta "or_low" = some r.low := rfl
  have hstop : invalidationOf row.2.rawMeta = some r.low := rfl
  have hfamily : row.1.patternFamily = "orb" := rfl
  simp only [hlast, hlow, targetsOf, hentry, resolveTargets, hfamily, genericTargets, hstop]
  by_cases heq : bar.close = r.low
  · simp [heq]
  · simp [heq, sub_ne_zero.2 heq]

end written

/-- **The formation's bars**: what is recorded of a harmonic row does not depend on them exactly when its last pivot is
not after its first, or the cap is below zero. For an opening range row it does not exactly when the cap is below zero
or the range is broken at its own low. -/
theorem formation_iff (exp : ℚ → ℚ) (rfc3339 : DateTime → String) (series : Series) (ttlBars : ℤ) :
    (∀ (cfg : HarmonicConfig) (slot : ℤ) (pivots : List StoredPivot),
      ∀ r ∈ harmonicRows exp rfc3339 cfg series slot pivots,
        BlindToFormation ttlBars r ↔ r.1.endTime ≤ r.1.startTime ∨ ttlBars < 0) ∧
    ∀ (cfg : OrbConfig) (bars : BarSeries), ∀ r ∈ orbRows rfc3339 cfg series bars,
      BlindToFormation ttlBars r ↔ ttlBars < 0 ∨ lastAnchorPrice r.2.anchors = rawF64 r.2.rawMeta "or_low" := by
  constructor
  · intro cfg slot pivots r hr
    obtain ⟨w, -, spec, score, hrow⟩ := mem_harmonicRows hr
    have hgraded : (targetsOf r.1 r.2).isSome := hrow ▸ isSome_targetsOf_harmonic
    refine (blind_iff r.1 r.2).trans (or_congr_right (or_iff_left fun hnone => ?_))
    simp [hnone] at hgraded
  · intro cfg bars r hr
    obtain ⟨avgVol, range, j, bar, side, rfl, hlt⟩ := mem_orbRows hr
    refine (blind_iff _ _).trans ?_
    rw [or_iff_right (not_le.2 hlt)]
    exact or_congr_right targetsOf_orb

/-- The Asian session of a day opens at 100 to 105, is left at 106, and the price goes on to 112. -/
def asianTape : List MarketBarRow := [⟨85500, 102, 101, 102, 1⟩, ⟨86400, 105, 100, 102, 1⟩, ⟨87300, 104, 101, 103, 1⟩,
  ⟨88200, 107, 103, 106, 1⟩, ⟨89100, 112, 106, 111, 1⟩, ⟨90000, 112, 110, 111, 1⟩]

def asianSeries (n : ℕ) : BarSeries :=
  ⟨asianTape.drop n, List.Pairwise.sublist (List.drop_sublist _ _) (by decide)⟩

/-- The range's own low is the stop: with the range in the series the row is `sl_hit`, and without it `tp1_hit`. -/
theorem opening_range_stops_itself :
    let rows := orbRows (fun _ => "") ⟨2000, 2, 1, 1 / 10, 12 / 10, [.asia]⟩ ⟨"binance", "futures", "BTCUSDT", "15m"⟩
      (asianSeries 0)
    (¬ ∀ r ∈ rows, BlindToFormation 2 r) ∧ rows.map (fun r => (r.1.startTime, r.1.endTime)) = [(86400, 88200)]
      ∧ rows.map (fun r => (evaluateOne 2 r.1 r.2 (asianSeries 0)).map (·.record)) = [some (.slHit, 0, some 100, 0, 6)]
      ∧ rows.map (fun r => (evaluateOne 2 r.1 r.2 (asianSeries 3)).map (·.record)) =
        [some (.tp1Hit, 1, some 112, 6, 3)] := by
  intro rows
  have htimes : rows.map (fun r => (r.1.startTime, r.1.endTime)) = [(86400, 88200)] := by decide +kernel
  have hwhole : rows.map (fun r => (evaluateOne 2 r.1 r.2 (asianSeries 0)).map (·.record)) =
      [some (.slHit, 0, some 100, 0, 6)] := by decide +kernel
  have hafter : rows.map (fun r => (evaluateOne 2 r.1 r.2 (asianSeries 3)).map (·.record)) =
      [some (.tp1Hit, 1, some 112, 6, 3)] := by decide +kernel
  refine ⟨fun h => ?_, htimes, hwhole, hafter⟩
  obtain ⟨r, hrows⟩ := List.length_eq_one_iff.1 (by simpa using congrArg List.length htimes)
  simp only [hrows, List.map_cons, List.map_nil, List.cons.injEq, Prod.mk.injEq, and_true] at htimes hwhole hafter
  have hsame := h r (hrows ▸ List.mem_singleton_self r) (asianSeries 0) (asianSeries 3)
    (by rw [htimes.2]; decide +kernel) (by rw [htimes.2]; decide +kernel)
  rw [hwhole, hafter] at hsame
  cases hsame

end Qtss.Worker.Outcomes
