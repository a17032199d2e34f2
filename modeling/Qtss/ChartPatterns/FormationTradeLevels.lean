import Mathlib.Tactic.Linarith
import Qtss.ChartPatterns.Analyze
/-
# Entry, stop and targets of a formation (`qtss-chart-patterns/src/formation_trade_levels.rs`)

| here | there |
| --- | --- |
| `bandHighLow` | formation_trade_levels.rs:40 |
| `tradeSideForPattern` | :51 |
| `slBuffer` | :76 |
| `stopAndTargets` | :103, the match on the side |
| `computeFormationTradeLevels` | :83 |

An `f64` is the rational it is, and finite. The second and the third target are kept only beyond the entry; the first one,
the opposite band, is not compared with it. A plan is out of order exactly where the id alone has chosen the side and the
close is already at that band (`levels_tradable_iff`).
-/

namespace Qtss.ChartPatterns

inductive FormationTradeSide where
  | long | short
deriving DecidableEq, Repr

structure FormationTakeProfit where
  id : String
  price : ℚ
  note : String
deriving DecidableEq

structure FormationTradeLevels where
  patternTypeId : ℤ
  side : FormationTradeSide
  entry : ℚ
  stopLoss : ℚ
  takeProfits : List FormationTakeProfit
  bandUpperAtBar : ℚ
  bandLowerAtBar : ℚ
  referenceBar : ℤ
  method : String
deriving DecidableEq

def methodId : String := "acp_literature_v1_channel_bands_measured_move"

def bandHighLow (h : ((ℤ × ℚ) × (ℤ × ℚ)) × ((ℤ × ℚ) × (ℤ × ℚ))) (bar : ℤ) : Option (ℚ × ℚ) := do
  let up ← linePriceAtBarIndex h.1.1 h.1.2 bar
  let lo ← linePriceAtBarIndex h.2.1 h.2.2 bar
  some (max up lo, min up lo)

/-- The ids from ascending channel to ascending triangle are for a long, their mirrors for a short. -/
def tradeSideForPattern (id : ℤ) (close bandHi bandLo : ℚ) : FormationTradeSide :=
  let mid := (bandHi + bandLo) / 2
  if id ∈ [1, 5, 7, 10, 13] then .long
  else if id ∈ [2, 4, 8, 9, 12] then .short
  -- 3, 6 and 11, and what is no pattern: fade from the middle
  else if close ≥ mid then .short
  else .long

def slBuffer (width entry : ℚ) : ℚ := max (max (|width| * (25 / 1000)) (|entry| * (1 / 10 ^ 8))) (1 / 10 ^ 12)

/-- `none` where the close is beyond the stop. -/
def stopAndTargets (side : FormationTradeSide) (bandHi bandLo width buf entry : ℚ) :
    Option (ℚ × List FormationTakeProfit) :=
  match side with
  | .long =>
    let sl := bandLo - buf
    if sl ≥ entry then none
    else
      let tp2 := bandHi + width
      let tp3 := bandHi + 1618 / 1000 * width
      some (sl,
        [⟨"tp1_opposite_band", bandHi, "Opposite channel boundary (mean-reversion / first objective)."⟩] ++
        (if tp2 > entry then
          [⟨"tp2_measured_move", tp2, "Measured move: +1× channel width beyond upper band."⟩] else []) ++
        (if tp3 > entry ∧ tp3 > bandHi then
          [⟨"tp3_extension_1618", tp3, "Fib-style extension ~1.618× width beyond upper band."⟩] else []))
  | .short =>
    let sl := bandHi + buf
    if sl ≤ entry then none
    else
      let tp2 := bandLo - width
      let tp3 := bandLo - 1618 / 1000 * width
      some (sl,
        [⟨"tp1_opposite_band", bandLo, "Opposite channel boundary (mean-reversion / first objective)."⟩] ++
        (if tp2 < entry then
          [⟨"tp2_measured_move", tp2, "Measured move: −1× channel width beyond lower band."⟩] else []) ++
        (if tp3 < entry ∧ tp3 < bandLo then
          [⟨"tp3_extension_1618", tp3, "Fib-style extension ~1.618× width beyond lower band."⟩] else []))

def computeFormationTradeLevels (outcome : ChannelSixScanOutcome) (referenceBar : ℤ) (close : ℚ) :
    Option FormationTradeLevels :=
  let id := outcome.scan.patternTypeId
  if ¬ (1 ≤ id ∧ id ≤ 13) then none
  else
    match bandHighLow (channelSixDrawingHints outcome) referenceBar with
    | none => none
    | some (bandHi, bandLo) =>
      let width := bandHi - bandLo
      if width ≤ 1 / 10 ^ 15 then none
      else
        let side := tradeSideForPattern id close bandHi bandLo
        let entry := close
        match stopAndTargets side bandHi bandLo width (slBuffer width entry) entry with
        | none => none
        | some (stopLoss, takeProfits) =>
          some ⟨id, side, entry, stopLoss, takeProfits, bandHi, bandLo, referenceBar, methodId⟩

/-! ## Order -/

/-- `b` is better than `a` for the side. -/
def FormationTradeSide.Better : FormationTradeSide → ℚ → ℚ → Prop
  | .long, a, b => a < b
  | .short, a, b => b < a

theorem FormationTradeSide.Better.trans {side : FormationTradeSide} {a b c : ℚ} (hab : side.Better a b)
    (hbc : side.Better b c) : side.Better a c := by
  cases side
  · exact lt_trans hab hbc
  · exact lt_trans hbc hab

theorem FormationTradeSide.Better.pairwise {side : FormationTradeSide} {a b c : ℚ} (hab : side.Better a b)
    (hbc : side.Better b c) : [a, b, c].Pairwise side.Better := by
  have hac := hab.trans hbc
  simp [hab, hbc, hac]

/-- From the stop over the entry to the targets, each is better than the one before. -/
structure Tradable (levels : FormationTradeLevels) : Prop where
  stop : levels.side.Better levels.stopLoss levels.entry
  targets : ∀ tp ∈ levels.takeProfits, levels.side.Better levels.entry tp.price
  ladder : (levels.takeProfits.map (·.price)).Pairwise levels.side.Better

/-- The opposite band. -/
def FormationTradeSide.firstTarget : FormationTradeSide → ℚ → ℚ → ℚ
  | .long, bandHi, _ => bandHi
  | .short, _, bandLo => bandLo

section
variable {side : FormationTradeSide} {bandHi bandLo width buf entry sl : ℚ} {tps : List FormationTakeProfit}

theorem slBuffer_pos (width entry : ℚ) : 0 < slBuffer width entry := lt_max_of_lt_right (by norm_num)

/-- The targets start at the opposite band and go up from there, whichever are left out. -/
theorem stopAndTargets_some (hwidth : 0 < width)
    (h : stopAndTargets side bandHi bandLo width buf entry = some (sl, tps)) :
    side.Better sl entry ∧ (tps.map (·.price)).Pairwise side.Better ∧
      (tps.map (·.price)).head? = some (side.firstTarget bandHi bandLo) := by
  cases side with
  | long =>
    simp only [stopAndTargets] at h
    split at h
    · cases h
    · rename_i hsl
      obtain ⟨rfl, rfl⟩ := Prod.mk.inj (Option.some.inj h)
      refine ⟨not_le.1 hsl, ?_, by simp [FormationTradeSide.firstTarget]⟩
      have hsecond : FormationTradeSide.long.Better bandHi (bandHi + width) := lt_add_of_pos_right _ hwidth
      have hthird : FormationTradeSide.long.Better (bandHi + width) (bandHi + 1618 / 1000 * width) := by
        change bandHi + width < _
        linarith
      refine (hsecond.pairwise hthird).sublist ?_
      split <;> split <;> simp
  | short =>
    simp only [stopAndTargets] at h
    split at h
    · cases h
    · rename_i hsl
      obtain ⟨rfl, rfl⟩ := Prod.mk.inj (Option.some.inj h)
      refine ⟨not_le.1 hsl, ?_, by simp [FormationTradeSide.firstTarget]⟩
      have hsecond : FormationTradeSide.short.Better bandLo (bandLo - width) := sub_lt_self _ hwidth
      have hthird : FormationTradeSide.short.Better (bandLo - width) (bandLo - 1618 / 1000 * width) := by
        change _ < bandLo - width
        linarith
      refine (hsecond.pairwise hthird).sublist ?_
      split <;> split <;> simp

theorem stopAndTargets_isSome (hstop : (match side with | .long => bandLo - buf | .short => bandHi + buf) = sl)
    (hbetter : side.Better sl entry) : ∃ tps, stopAndTargets side bandHi bandLo width buf entry = some (sl, tps) := by
  subst hstop
  cases side with
  | long => exact ⟨_, if_neg (not_le.2 hbetter)⟩
  | short => exact ⟨_, if_neg (not_le.2 hbetter)⟩

end

/-- The id alone has chosen the side, and the close is at the opposite band or beyond. -/
def PastTarget (id : ℤ) (close bandHi bandLo : ℚ) : Prop :=
  (id ∈ [1, 5, 7, 10, 13] ∧ bandHi ≤ close) ∨ (id ∈ [2, 4, 8, 9, 12] ∧ close ≤ bandLo)

section
variable {id : ℤ} {close bandHi bandLo : ℚ}

/-- A side chosen from the middle has the band before it. -/
theorem better_firstTarget_iff (hwidth : bandLo < bandHi) :
    (tradeSideForPattern id close bandHi bandLo).Better close
        ((tradeSideForPattern id close bandHi bandLo).firstTarget bandHi bandLo) ↔ ¬ PastTarget id close bandHi bandLo := by
  have hmid : bandLo < (bandHi + bandLo) / 2 ∧ (bandHi + bandLo) / 2 < bandHi := ⟨by linarith, by linarith⟩
  have hdisjoint : id ∈ [(1 : ℤ), 5, 7, 10, 13] → id ∉ [(2 : ℤ), 4, 8, 9, 12] := by
    simp only [List.mem_cons, List.not_mem_nil, or_false]
    omega
  unfold tradeSideForPattern PastTarget
  by_cases hlong : id ∈ [(1 : ℤ), 5, 7, 10, 13]
  · simp [hlong, hdisjoint hlong, FormationTradeSide.Better, FormationTradeSide.firstTarget]
  · by_cases hshort : id ∈ [(2 : ℤ), 4, 8, 9, 12]
    · simp [hlong, hshort, FormationTradeSide.Better, FormationTradeSide.firstTarget]
    · have hnot : ¬ ((id ∈ [(1 : ℤ), 5, 7, 10, 13] ∧ bandHi ≤ close) ∨
          (id ∈ [(2 : ℤ), 4, 8, 9, 12] ∧ close ≤ bandLo)) := by
        rintro (⟨hid, -⟩ | ⟨hid, -⟩)
        · exact hlong hid
        · exact hshort hid
      rw [if_neg hlong, if_neg hshort]
      split
      · rename_i hupper
        exact iff_of_true (hmid.1.trans_le hupper) hnot
      · rename_i hlower
        exact iff_of_true ((not_le.1 hlower).trans hmid.2) hnot

/-- Past its target a plan is never refused for its stop. -/
theorem PastTarget.stopAndTargets (hpast : PastTarget id close bandHi bandLo) (hwidth : bandLo < bandHi) :
    ∃ sl tps, stopAndTargets (tradeSideForPattern id close bandHi bandLo) bandHi bandLo (bandHi - bandLo)
      (slBuffer (bandHi - bandLo) close) close = some (sl, tps) := by
  have hbuf := slBuffer_pos (bandHi - bandLo) close
  have hdisjoint : id ∈ [(2 : ℤ), 4, 8, 9, 12] → id ∉ [(1 : ℤ), 5, 7, 10, 13] := by
    simp only [List.mem_cons, List.not_mem_nil, or_false]
    omega
  rcases hpast with ⟨hid, hclose⟩ | ⟨hid, hclose⟩
  · rw [tradeSideForPattern, if_pos hid]
    refine ⟨_, stopAndTargets_isSome rfl ?_⟩
    change bandLo - slBuffer (bandHi - bandLo) close < close
    linarith
  · rw [tradeSideForPattern, if_neg (hdisjoint hid), if_pos hid]
    refine ⟨_, stopAndTargets_isSome rfl ?_⟩
    change close < bandHi + slBuffer (bandHi - bandLo) close
    linarith

end

/-- At the bar the bands are apart, and the close is past the target. -/
def PastTargetAt (outcome : ChannelSixScanOutcome) (referenceBar : ℤ) (close : ℚ) : Prop :=
  ∃ bandHi bandLo, bandHighLow (channelSixDrawingHints outcome) referenceBar = some (bandHi, bandLo) ∧
    1 / 10 ^ 15 < bandHi - bandLo ∧ PastTarget outcome.scan.patternTypeId close bandHi bandLo

theorem PastTarget.id_range {id : ℤ} {close bandHi bandLo : ℚ} (h : PastTarget id close bandHi bandLo) :
    1 ≤ id ∧ id ≤ 13 := by
  rcases h with ⟨hid, -⟩ | ⟨hid, -⟩ <;>
    · simp only [List.mem_cons, List.not_mem_nil, or_false] at hid
      omega

/-- What an answer is made of. -/
theorem computeFormationTradeLevels_eq_some {outcome : ChannelSixScanOutcome} {referenceBar : ℤ} {close : ℚ}
    {levels : FormationTradeLevels} :
    computeFormationTradeLevels outcome referenceBar close = some levels ↔
      (1 ≤ outcome.scan.patternTypeId ∧ outcome.scan.patternTypeId ≤ 13) ∧
      ∃ bandHi bandLo, bandHighLow (channelSixDrawingHints outcome) referenceBar = some (bandHi, bandLo) ∧
        1 / 10 ^ 15 < bandHi - bandLo ∧
        ∃ sl tps, stopAndTargets (tradeSideForPattern outcome.scan.patternTypeId close bandHi bandLo) bandHi bandLo
            (bandHi - bandLo) (slBuffer (bandHi - bandLo) close) close = some (sl, tps) ∧
          levels = ⟨outcome.scan.patternTypeId, tradeSideForPattern outcome.scan.patternTypeId close bandHi bandLo,
            close, sl, tps, bandHi, bandLo, referenceBar, methodId⟩ := by
  unfold computeFormationTradeLevels
  dsimp only
  by_cases hid : 1 ≤ outcome.scan.patternTypeId ∧ outcome.scan.patternTypeId ≤ 13
  · rw [if_neg (not_not.2 hid)]
    rcases hbands : bandHighLow (channelSixDrawingHints outcome) referenceBar with _ | ⟨bandHi, bandLo⟩
    · simp
    · dsimp only
      by_cases hwidth : bandHi - bandLo ≤ 1 / 10 ^ 15
      · rw [if_pos hwidth]
        constructor
        · intro h
          cases h
        · rintro ⟨-, hi, lo, heq, hlt, -⟩
          obtain ⟨rfl, rfl⟩ := Prod.mk.inj (Option.some.inj heq)
          exact absurd hwidth (not_le.2 hlt)
      · rw [if_neg hwidth]
        rcases hplan : stopAndTargets (tradeSideForPattern outcome.scan.patternTypeId close bandHi bandLo) bandHi bandLo
          (bandHi - bandLo) (slBuffer (bandHi - bandLo) close) close with _ | ⟨sl, tps⟩
        · constructor
          · intro h
            cases h
          · rintro ⟨-, hi, lo, heq, -, sl, tps, hsome, -⟩
            obtain ⟨rfl, rfl⟩ := Prod.mk.inj (Option.some.inj heq)
            rw [hplan] at hsome
            cases hsome
        · constructor
          · intro h
            exact ⟨hid, bandHi, bandLo, rfl, not_le.1 hwidth, sl, tps, hplan, (Option.some.inj h).symm⟩
          · rintro ⟨-, hi, lo, heq, -, sl', tps', hsome, rfl⟩
            obtain ⟨rfl, rfl⟩ := Prod.mk.inj (Option.some.inj heq)
            rw [hplan] at hsome
            obtain ⟨rfl, rfl⟩ := Prod.mk.inj (Option.some.inj hsome)
            rfl
  · rw [if_pos hid]
    constructor
    · intro h
      cases h
    · intro h
      exact absurd h.1 hid

/-- A plan is in order where its entry is before its first target. -/
theorem tradable_iff {levels : FormationTradeLevels} {first : ℚ}
    (hstop : levels.side.Better levels.stopLoss levels.entry)
    (hladder : (levels.takeProfits.map (·.price)).Pairwise levels.side.Better)
    (hfirst : (levels.takeProfits.map (·.price)).head? = some first) :
    Tradable levels ↔ levels.side.Better levels.entry first := by
  obtain ⟨rest, hrest⟩ := List.head?_eq_some_iff.1 hfirst
  constructor
  · intro h
    obtain ⟨tp, htp, hprice⟩ := List.mem_map.1 (hrest ▸ List.mem_cons_self : first ∈ levels.takeProfits.map (·.price))
    exact hprice ▸ h.targets tp htp
  · intro hbetter
    refine ⟨hstop, fun tp htp => ?_, hladder⟩
    have hmem : tp.price ∈ first :: rest := hrest ▸ List.mem_map_of_mem htp
    rw [hrest] at hladder
    rcases List.mem_cons.1 hmem with heq | hlater
    · exact heq ▸ hbetter
    · exact hbetter.trans ((List.pairwise_cons.1 hladder).1 _ hlater)

/-- **The order of a plan.** Every answer is in order, unless the close is past the target of a side chosen by the id. -/
theorem levels_tradable_iff (outcome : ChannelSixScanOutcome) (referenceBar : ℤ) (close : ℚ) :
    (∀ levels, computeFormationTradeLevels outcome referenceBar close = some levels → Tradable levels) ↔
      ¬ PastTargetAt outcome referenceBar close := by
  have hplan {bandHi bandLo sl : ℚ} {tps : List FormationTakeProfit} (hwide : 1 / 10 ^ 15 < bandHi - bandLo)
      (h : stopAndTargets (tradeSideForPattern outcome.scan.patternTypeId close bandHi bandLo) bandHi bandLo
        (bandHi - bandLo) (slBuffer (bandHi - bandLo) close) close = some (sl, tps)) :
      Tradable ⟨outcome.scan.patternTypeId, tradeSideForPattern outcome.scan.patternTypeId close bandHi bandLo, close, sl,
        tps, bandHi, bandLo, referenceBar, methodId⟩ ↔ ¬ PastTarget outcome.scan.patternTypeId close bandHi bandLo := by
    have hwidth : 0 < bandHi - bandLo := lt_trans (by norm_num) hwide
    obtain ⟨hstop, hladder, hfirst⟩ := stopAndTargets_some hwidth h
    exact (tradable_iff hstop hladder hfirst).trans (better_firstTarget_iff (sub_pos.1 hwidth))
  constructor
  · rintro hall ⟨bandHi, bandLo, hbands, hwide, hpast⟩
    have hwidth : bandLo < bandHi := sub_pos.1 (lt_trans (by norm_num) hwide)
    obtain ⟨sl, tps, hsome⟩ := hpast.stopAndTargets hwidth
    have hanswer := computeFormationTradeLevels_eq_some.2
      ⟨hpast.id_range, bandHi, bandLo, hbands, hwide, sl, tps, hsome, rfl⟩
    exact (hplan hwide hsome).1 (hall _ hanswer) hpast
  · intro hnever levels hanswer
    obtain ⟨-, bandHi, bandLo, hbands, hwide, sl, tps, hsome, rfl⟩ := computeFormationTradeLevels_eq_some.1 hanswer
    exact (hplan hwide hsome).2 fun hpast => hnever ⟨bandHi, bandLo, hbands, hwide, hpast⟩

/-- A rising channel from 96 and 100 up. -/
def risingChannel : ChannelSixScanOutcome :=
  ⟨⟨1, 1, 1, true, true, 0, 0⟩, [⟨0, 100, 1⟩, ⟨2, 95, -1⟩, ⟨4, 102, 1⟩, ⟨6, 96, -1⟩, ⟨8, 104, 1⟩], 5, 0, 0⟩

/-- A long above the channel, its first target below the entry. -/
theorem long_above_channel : ∃ levels, computeFormationTradeLevels risingChannel 8 105 = some levels ∧
    levels.side = .long ∧ (levels.takeProfits.map (·.price)).head? = some 104 ∧ ¬ Tradable levels := by
  have hbands : bandHighLow (channelSixDrawingHints risingChannel) 8 = some (104, 193 / 2) := by decide +kernel
  have hpast : PastTarget 1 105 104 (193 / 2) := .inl ⟨by decide, by decide +kernel⟩
  obtain ⟨sl, tps, hsome⟩ := hpast.stopAndTargets (by decide +kernel)
  have hanswer := computeFormationTradeLevels_eq_some.2
    ⟨hpast.id_range, 104, 193 / 2, hbands, by decide +kernel, sl, tps, hsome, rfl⟩
  obtain ⟨hstop, hladder, hfirst⟩ := stopAndTargets_some (by decide +kernel) hsome
  refine ⟨_, hanswer, rfl, hfirst, fun h => ?_⟩
  have hbetter : (105 : ℚ) < 104 := (tradable_iff hstop hladder hfirst).1 h
  norm_num at hbetter

end Qtss.ChartPatterns
