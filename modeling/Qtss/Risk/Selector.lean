import Mathlib.Data.List.Sort
import Qtss.Lib.Float64
import Qtss.Risk.LivePositionStore
/-
# The setup selector (`qtss-risk/src/selector.rs`)

| here | there |
| --- | --- |
| `SetupCandidate`, `SelectorConfig`, `resolveFor` | selector.rs:24, :82, :95 |
| `SelectorFilter`    | the trait `SelectorFilter` (:151): a tag and `evaluate` |
| `MinAiScoreFilter`, ..., `LiquidationCooldownFilter` | the six implementations (:167-266) |
| `withDefaults`      | `with_defaults` (:291), their order |
| `evaluate`, `rank`  | :322, :347 |
| `compositeScore`    | :392 |

`toF64` is `Decimal::to_f64`. `sort_by` is stable; where a score is NaN its comparator is no order and the standard
library leaves open what comes out.

A candidate is judged alone, against the snapshot it carries: `rank_sound` has the cap for every candidate that is
selected, and `rank_exceeds_cap` two setups of one symbol under a cap of one.
-/

namespace Qtss.Risk
open Keyed

inductive SetupDirection where
  | long | short
deriving DecidableEq, Repr

structure SetupCandidate where
  setupId : Uuid
  exchange : String
  segment : MarketSegment
  symbol : String
  direction : SetupDirection
  entryPrice : ℚ
  stopPrice : ℚ
  targetPrice : ℚ
  aiScore : F64
  riskPct : F64
  tier : ℕ
  openPositionsOnSymbol : ℕ
  underLiquidationCooldown : Bool

structure SelectorConfigOverride where
  minRiskReward : Option F64
  minAiScore : Option F64
  maxRiskPct : Option F64
  minTier : Option ℕ
  maxOpenPositionsPerSymbol : Option ℕ

structure SelectorConfig where
  minRiskReward : F64
  minAiScore : F64
  maxRiskPct : F64
  minTier : ℕ
  maxOpenPositionsPerSymbol : ℕ
  segmentOverrides : HashMap MarketSegment SelectorConfigOverride

def SelectorConfig.default : SelectorConfig where
  minRiskReward := F64.round (3 / 2)
  minAiScore := F64.round (11 / 20)
  maxRiskPct := F64.round (1 / 50)
  minTier := 6
  maxOpenPositionsPerSymbol := 1
  segmentOverrides := ∅

/-- selector.rs:95. -/
def SelectorConfig.resolveFor (cfg : SelectorConfig) (segment : MarketSegment) : SelectorConfig :=
  match cfg.segmentOverrides.lookup segment with
  | none => cfg
  | some ov =>
    { minRiskReward := ov.minRiskReward.getD cfg.minRiskReward
      minAiScore := ov.minAiScore.getD cfg.minAiScore
      maxRiskPct := ov.maxRiskPct.getD cfg.maxRiskPct
      minTier := ov.minTier.getD cfg.minTier
      maxOpenPositionsPerSymbol := ov.maxOpenPositionsPerSymbol.getD cfg.maxOpenPositionsPerSymbol
      segmentOverrides := ∅ }

/-! ## The filters -/

/-- A `format!`: texts, and numbers with so many decimals. -/
inductive ReasonPart where
  | lit (s : String)
  | fixed (decimals : ℕ) (x : F64)
  | nat (n : ℕ)
deriving DecidableEq

abbrev Reason := List ReasonPart

structure SelectorFilter where
  tag : String
  evaluate : SetupCandidate → SelectorConfig → Option Reason

/-- A filter that rejects where `breach` holds. -/
def rejectWhen (tag : String) (breach : SetupCandidate → SelectorConfig → Bool)
    (reason : SetupCandidate → SelectorConfig → Reason) : SelectorFilter where
  tag := tag
  evaluate c cfg := if breach c cfg then some (reason c cfg) else none

def decimalToF64 (toF64 : ℚ → Option F64) (d : ℚ) : F64 := (toF64 d).getD (.fin 0)

/-- Risk and reward, signed by the direction. -/
def riskReward (toF64 : ℚ → Option F64) (c : SetupCandidate) : F64 × F64 :=
  let entry := decimalToF64 toF64 c.entryPrice
  let stop := decimalToF64 toF64 c.stopPrice
  let target := decimalToF64 toF64 c.targetPrice
  match c.direction with
  | .long => (.sub entry stop, .sub target entry)
  | .short => (.sub stop entry, .sub entry target)

/-- selector.rs:167. -/
def MinRiskRewardFilter (toF64 : ℚ → Option F64) : SelectorFilter where
  tag := "min_risk_reward"
  evaluate c cfg :=
    let (risk, reward) := riskReward toF64 c
    if F64.le risk (.fin 0) then some [.lit "non-positive risk: ", .fixed 6 risk]
    else if F64.le reward (.fin 0) then some [.lit "non-positive reward: ", .fixed 6 reward]
    else
      let rr := F64.div reward risk
      if F64.lt rr cfg.minRiskReward then
        some [.lit "R:R ", .fixed 2 rr, .lit " < ", .fixed 2 cfg.minRiskReward]
      else none

/-- selector.rs:193. A NaN score is not below anything. -/
def MinAiScoreFilter : SelectorFilter :=
  rejectWhen "min_ai_score" (fun c cfg => F64.lt c.aiScore cfg.minAiScore)
    fun c cfg => [.lit "ai_score ", .fixed 3 c.aiScore, .lit " < ", .fixed 3 cfg.minAiScore]

/-- selector.rs:210. -/
def MaxRiskPctFilter : SelectorFilter :=
  rejectWhen "max_risk_pct" (fun c cfg => F64.lt cfg.maxRiskPct c.riskPct)
    fun c cfg => [.lit "risk_pct ", .fixed 4 c.riskPct, .lit " > ", .fixed 4 cfg.maxRiskPct]

/-- selector.rs:227. -/
def MinTierFilter : SelectorFilter :=
  rejectWhen "min_tier" (fun c cfg => c.tier < cfg.minTier)
    fun c cfg => [.lit "tier ", .nat c.tier, .lit " < ", .nat cfg.minTier]

/-- selector.rs:241. -/
def OpenPositionCapFilter : SelectorFilter :=
  rejectWhen "open_position_cap" (fun c cfg => cfg.maxOpenPositionsPerSymbol ≤ c.openPositionsOnSymbol)
    fun c cfg => [.lit "open_positions ", .nat c.openPositionsOnSymbol, .lit " >= cap ",
      .nat cfg.maxOpenPositionsPerSymbol]

/-- selector.rs:258. -/
def LiquidationCooldownFilter : SelectorFilter :=
  rejectWhen "liquidation_cooldown" (fun c _ => c.underLiquidationCooldown)
    fun _ _ => [.lit "symbol under post-liquidation cooldown"]

/-! ## The registry -/

abbrev SelectorRegistry := List SelectorFilter

/-- "Production defaults — all 6 filters in a sensible order." -/
def SelectorRegistry.withDefaults (toF64 : ℚ → Option F64) : SelectorRegistry :=
  [MinAiScoreFilter, MinTierFilter, MaxRiskPctFilter, MinRiskRewardFilter toF64, OpenPositionCapFilter,
    LiquidationCooldownFilter]

inductive SelectionOutcome where
  | selected (setupId : Uuid) (compositeScore : F64)
  | rejected (setupId : Uuid) (filter : String) (reason : Reason)

/-- selector.rs:392. -/
def compositeScore (toF64 : ℚ → Option F64) (c : SetupCandidate) : F64 :=
  let (risk, reward) := riskReward toF64 c
  let rrClamped :=
    if F64.lt (.fin 0) risk && F64.lt (.fin 0) reward then F64.div (.min (.div reward risk) (.fin 5)) (.fin 5)
    else .fin 0
  .add (.mul (.round (7 / 10)) c.aiScore) (.mul (.round (3 / 10)) rrClamped)

structure RankedOutcome where
  selected : List (F64 × Uuid)
  rejections : HashMap Uuid (String × Reason)

/-- The comparator of `sort_by`, descending: `a` may stand before `b`. -/
def mayPrecede (a b : F64 × Uuid) : Prop := (F64.partialCmp b.1 a.1).getD .eq ≠ .gt

instance : DecidableRel mayPrecede := fun _ _ => inferInstanceAs (Decidable (_ ≠ _))

namespace SelectorRegistry

/-- "Walk filters in order; short-circuit on first rejection." -/
def evaluate (reg : SelectorRegistry) (toF64 : ℚ → Option F64) (c : SetupCandidate) (cfg : SelectorConfig) :
    SelectionOutcome :=
  let effective := cfg.resolveFor c.segment
  match reg.findSome? fun f => (f.evaluate c effective).map fun reason => (f.tag, reason) with
  | some (tag, reason) => .rejected c.setupId tag reason
  | none => .selected c.setupId (compositeScore toF64 c)

/-- One candidate of the loop in `rank`. -/
def rankOne (reg : SelectorRegistry) (toF64 : ℚ → Option F64) (cfg : SelectorConfig) (out : RankedOutcome)
    (c : SetupCandidate) : RankedOutcome :=
  match reg.evaluate toF64 c cfg with
  | .selected setupId score => { out with selected := out.selected ++ [(score, setupId)] }
  | .rejected setupId filter reason => { out with rejections := out.rejections.insert setupId (filter, reason) }

/-- selector.rs:347. -/
def rank (reg : SelectorRegistry) (toF64 : ℚ → Option F64) (candidates : List SetupCandidate)
    (cfg : SelectorConfig) : RankedOutcome :=
  let out := candidates.foldl (reg.rankOne toF64 cfg) ⟨[], ∅⟩
  { out with selected := out.selected.insertionSort mayPrecede }

/-! ## One candidate -/

variable {reg : SelectorRegistry} {toF64 : ℚ → Option F64} {cfg : SelectorConfig} {c : SetupCandidate}
  {candidates : List SetupCandidate} {out : RankedOutcome}

/-- No filter rejects. -/
def Passes (reg : SelectorRegistry) (cfg : SelectorConfig) (c : SetupCandidate) : Prop :=
  ∀ f ∈ reg, f.evaluate c (cfg.resolveFor c.segment) = none

instance : DecidablePred (Passes reg cfg) := fun _ => inferInstanceAs (Decidable (∀ f ∈ reg, _))

theorem evaluate_of_passes (h : Passes reg cfg c) :
    reg.evaluate toF64 c cfg = .selected c.setupId (compositeScore toF64 c) := by
  have hnone : (reg.findSome? fun f =>
      (f.evaluate c (cfg.resolveFor c.segment)).map fun reason => (f.tag, reason)) = none := by
    rw [List.findSome?_eq_none_iff]
    intro f hf
    rw [h f hf, Option.map_none]
  simp only [evaluate, hnone]

theorem evaluate_of_not_passes (toF64 : ℚ → Option F64) (h : ¬ Passes reg cfg c) :
    ∃ filter reason, reg.evaluate toF64 c cfg = .rejected c.setupId filter reason := by
  simp only [Passes, not_forall] at h
  obtain ⟨f, hf, hsome⟩ := h
  have hfind : (reg.findSome? fun f =>
      (f.evaluate c (cfg.resolveFor c.segment)).map fun reason => (f.tag, reason)).isSome := by
    rw [List.findSome?_isSome_iff]
    exact ⟨f, hf, by rwa [Option.isSome_map, Option.isSome_iff_ne_none]⟩
  obtain ⟨⟨filter, reason⟩, hwhy⟩ := Option.isSome_iff_exists.1 hfind
  exact ⟨filter, reason, by simp only [evaluate, hwhy]⟩

/-- With the default filters, what passes is under the cap of its segment. -/
theorem lt_cap_of_passes (h : Passes (withDefaults toF64) cfg c) :
    c.openPositionsOnSymbol < (cfg.resolveFor c.segment).maxOpenPositionsPerSymbol := by
  have hcap := h OpenPositionCapFilter (by simp [withDefaults])
  simpa [OpenPositionCapFilter, rejectWhen] using hcap

/-! ## The slate -/

def pick (toF64 : ℚ → Option F64) (c : SetupCandidate) : F64 × Uuid := (compositeScore toF64 c, c.setupId)

theorem rankOne_of_passes (h : Passes reg cfg c) :
    reg.rankOne toF64 cfg out c = { out with selected := out.selected ++ [pick toF64 c] } := by
  rw [rankOne, evaluate_of_passes h]
  rfl

theorem rankOne_of_not_passes (toF64 : ℚ → Option F64) (out : RankedOutcome) (h : ¬ Passes reg cfg c) :
    ∃ why, reg.rankOne toF64 cfg out c = { out with rejections := out.rejections.insert c.setupId why } := by
  obtain ⟨filter, reason, heval⟩ := evaluate_of_not_passes toF64 h
  exact ⟨(filter, reason), by rw [rankOne, heval]⟩

theorem selected_foldl (candidates : List SetupCandidate) (out : RankedOutcome) :
    (candidates.foldl (reg.rankOne toF64 cfg) out).selected =
      out.selected ++ (candidates.filter (Passes reg cfg)).map (pick toF64) := by
  induction candidates generalizing out with
  | nil => simp
  | cons c candidates ih =>
    rw [List.foldl_cons, ih]
    by_cases h : Passes reg cfg c
    · rw [rankOne_of_passes h, List.filter_cons_of_pos (by simpa using h), List.map_cons, List.append_assoc,
        List.singleton_append]
    · obtain ⟨why, hone⟩ := rankOne_of_not_passes toF64 out h
      rw [hone, List.filter_cons_of_neg (by simpa using h)]

theorem mem_rejections_foldl (candidates : List SetupCandidate) (out : RankedOutcome) (id : Uuid) :
    id ∈ (candidates.foldl (reg.rankOne toF64 cfg) out).rejections ↔
      id ∈ out.rejections ∨ ∃ c ∈ candidates, ¬ Passes reg cfg c ∧ c.setupId = id := by
  induction candidates generalizing out with
  | nil => simp
  | cons c candidates ih =>
    rw [List.foldl_cons, ih]
    simp only [List.mem_cons, exists_eq_or_imp]
    by_cases h : Passes reg cfg c
    · rw [rankOne_of_passes h]
      simp [h]
    · obtain ⟨why, hone⟩ := rankOne_of_not_passes toF64 out h
      rw [hone, AList.mem_insert]
      simp only [h, not_false_eq_true, true_and]
      constructor
      · rintro ((rfl | hid) | hc)
        · exact .inr (.inl rfl)
        · exact .inl hid
        · exact .inr (.inr hc)
      · rintro (hid | rfl | hc)
        · exact .inl (.inr hid)
        · exact .inl (.inl rfl)
        · exact .inr hc

theorem selected_perm (reg : SelectorRegistry) (toF64 : ℚ → Option F64) (candidates : List SetupCandidate)
    (cfg : SelectorConfig) : (reg.rank toF64 candidates cfg).selected.Perm
      ((candidates.filter (Passes reg cfg)).map (pick toF64)) := by
  simp only [rank, selected_foldl, List.nil_append]
  exact List.perm_insertionSort _ _

/-- On scores that are numbers the comparator is that of a linear order. -/
theorem sorted_insertionSort {l : List (F64 × Uuid)} (h : ∀ p ∈ l, p.1.isNan = false) :
    (l.insertionSort mayPrecede).Pairwise fun a b => F64.le b.1 a.1 := by
  have hmap := List.map_insertionSort mayPrecede (fun a b : F64 × Uuid => b.1.rank ≤ a.1.rank) id l
    fun a ha b hb => F64.partialCmp_ne_gt_iff (h a ha) (h b hb)
  rw [List.map_id, List.map_id] at hmap
  have : Std.Total fun a b : F64 × Uuid => b.1.rank ≤ a.1.rank := ⟨fun a b => le_total _ _⟩
  have : IsTrans (F64 × Uuid) fun a b => b.1.rank ≤ a.1.rank := ⟨fun a b c hab hbc => hbc.trans hab⟩
  rw [hmap]
  refine (List.pairwise_insertionSort _ l).imp_of_mem fun ha hb hab => ?_
  rw [List.mem_insertionSort] at ha hb
  exact (F64.le_iff (h _ hb) (h _ ha)).2 hab

/-- The other candidates have other ids. -/
theorem exists_split_of_count (hc : c ∈ candidates) (hown : (candidates.map (·.setupId)).count c.setupId = 1) :
    ∃ pre post, candidates = pre ++ c :: post ∧ ∀ d, d ∈ pre ∨ d ∈ post → d.setupId ≠ c.setupId := by
  obtain ⟨pre, post, rfl⟩ := List.append_of_mem hc
  simp only [List.map_append, List.map_cons, List.count_append, List.count_cons_self] at hown
  refine ⟨pre, post, rfl, fun d hd hid => ?_⟩
  have hpre : c.setupId ∉ pre.map (·.setupId) := List.count_eq_zero.1 (by omega)
  have hpost : c.setupId ∉ post.map (·.setupId) := List.count_eq_zero.1 (by omega)
  rcases hd with hd | hd
  · exact hpre (hid ▸ List.mem_map_of_mem hd)
  · exact hpost (hid ▸ List.mem_map_of_mem hd)

/-- A candidate of its own id is selected once if it passes, and not at all otherwise. -/
theorem count_selected (reg : SelectorRegistry) (toF64 : ℚ → Option F64) (cfg : SelectorConfig) (hc : c ∈ candidates) (hown : (candidates.map (·.setupId)).count c.setupId = 1) :
    ((reg.rank toF64 candidates cfg).selected.map (·.2)).count c.setupId = if Passes reg cfg c then 1 else 0 := by
  rw [((selected_perm reg toF64 candidates cfg).map _).count_eq, List.map_map]
  change ((candidates.filter (Passes reg cfg)).map (·.setupId)).count c.setupId = _
  obtain ⟨pre, post, rfl, hother⟩ := exists_split_of_count hc hown
  have hnone : ∀ l : List SetupCandidate, (∀ d ∈ l, d.setupId ≠ c.setupId) →
      ((l.filter (Passes reg cfg)).map (·.setupId)).count c.setupId = 0 := by
    intro l hl
    rw [List.count_eq_zero, List.mem_map]
    rintro ⟨d, hd, hid⟩
    exact hl d (List.mem_of_mem_filter hd) hid
  rw [List.filter_append, List.map_append, List.count_append, hnone pre fun d hd => hother d (.inl hd), Nat.zero_add]
  by_cases h : Passes reg cfg c
  · rw [if_pos h, List.filter_cons_of_pos (by simpa using h), List.map_cons, List.count_cons_self,
      hnone post fun d hd => hother d (.inr hd)]
  · rw [if_neg h, List.filter_cons_of_neg (by simpa using h), hnone post fun d hd => hother d (.inr hd)]

theorem mem_rejections_iff (hc : c ∈ candidates) (hown : (candidates.map (·.setupId)).count c.setupId = 1) :
    c.setupId ∈ (reg.rank toF64 candidates cfg).rejections ↔ ¬ Passes reg cfg c := by
  rw [rank, mem_rejections_foldl]
  simp only [AList.notMem_empty, false_or]
  obtain ⟨pre, post, rfl, hother⟩ := exists_split_of_count hc hown
  constructor
  · rintro ⟨d, hd, hreject, hid⟩
    rcases List.mem_append.1 hd with hd | hd
    · exact absurd hid (hother d (.inl hd))
    · rcases List.mem_cons.1 hd with rfl | hd
      · exact hreject
      · exact absurd hid (hother d (.inr hd))
  · exact fun hreject => ⟨c, hc, hreject, rfl⟩

/-! ## What a ranking is -/

/-- The candidates on a symbol. -/
def onSymbol (exchange symbol : String) (c : SetupCandidate) : Bool := c.exchange = exchange && c.symbol = symbol

/-- What a ranking with the default filters keeps, whatever the slate. -/
structure RankSound (toF64 : ℚ → Option F64) (cfg : SelectorConfig) (candidates : List SetupCandidate)
    (out : RankedOutcome) : Prop where
  /-- Every selected setup is a candidate whose own snapshot is under the cap of its segment. -/
  capped : ∀ p ∈ out.selected, ∃ c ∈ candidates, c.setupId = p.2
    ∧ c.openPositionsOnSymbol < (cfg.resolveFor c.segment).maxOpenPositionsPerSymbol
  /-- A symbol gets as many setups as it has candidates that pass on their own. -/
  slate : (candidates.map (·.setupId)).Nodup → ∀ exchange symbol,
    candidates.countP (fun c => onSymbol exchange symbol c && c.setupId ∈ out.selected.map (·.2)) =
      candidates.countP (fun c => onSymbol exchange symbol c && Passes (withDefaults toF64) cfg c)
  /-- A candidate of its own id is in one of the two lists, once. -/
  once : ∀ c ∈ candidates, (candidates.map (·.setupId)).count c.setupId = 1 →
    (out.selected.map (·.2)).count c.setupId + (if c.setupId ∈ out.rejections then 1 else 0) = 1
  sorted : (∀ p ∈ out.selected, p.1.isNan = false) → out.selected.Pairwise fun a b => F64.le b.1 a.1

/-- **The selector**, for every slate, configuration and conversion. -/
theorem rank_sound (toF64 : ℚ → Option F64) (cfg : SelectorConfig) (candidates : List SetupCandidate) :
    RankSound toF64 cfg candidates ((withDefaults toF64).rank toF64 candidates cfg) where
  capped p hp := by
    obtain ⟨c, hc, rfl⟩ := List.mem_map.1 ((selected_perm _ toF64 candidates cfg).mem_iff.1 hp)
    obtain ⟨hc, hpasses⟩ := List.mem_filter.1 hc
    exact ⟨c, hc, rfl, lt_cap_of_passes (of_decide_eq_true hpasses)⟩
  slate hids exchange symbol := by
    refine List.countP_congr fun c hc => ?_
    have hown := List.count_eq_one_of_mem hids (List.mem_map_of_mem (f := (·.setupId)) hc)
    have hcount := count_selected (withDefaults toF64) toF64 cfg hc hown
    have hmem : c.setupId ∈ ((withDefaults toF64).rank toF64 candidates cfg).selected.map (·.2)
        ↔ Passes (withDefaults toF64) cfg c := by
      rw [← List.count_pos_iff, hcount]
      by_cases h : Passes (withDefaults toF64) cfg c <;> simp [h]
    simp only [Bool.and_eq_true, decide_eq_true_eq, hmem]
  once c hc hown := by
    rw [count_selected _ toF64 cfg hc hown, if_congr (mem_rejections_iff hc hown) rfl rfl]
    by_cases h : Passes (withDefaults toF64) cfg c <;> simp [h]
  sorted hnum := by
    have hin : ∀ p ∈ (candidates.foldl ((withDefaults toF64).rankOne toF64 cfg) ⟨[], ∅⟩).selected,
        p.1.isNan = false :=
      fun p hp => hnum p ((List.mem_insertionSort _).2 hp)
    exact sorted_insertionSort hin

/-! ## Two candidates of one symbol -/

/-- A long of risk 2 and reward 6. -/
def btcLong (setupId : Uuid) (aiScore : F64) : SetupCandidate :=
  ⟨setupId, "binance", .futures, "BTCUSDT", .long, 100, 98, 106, aiScore, .round (1 / 100), 8, 0, false⟩

def rankedPair (score score' : F64) : RankedOutcome :=
  (withDefaults (some ∘ F64.round)).rank (some ∘ F64.round) [btcLong 0 score, btcLong 1 score'] .default

/-- No position is open and the cap is one: both are selected. A score that is not a number passes, and stands before
a better one. -/
theorem rank_exceeds_cap :
    ¬ ((btcLong 0 (.round (3 / 5))).openPositionsOnSymbol +
        [btcLong 0 (.round (3 / 5)), btcLong 1 (.round (19 / 20))].countP (fun c =>
          onSymbol "binance" "BTCUSDT" c
            && c.setupId ∈ (rankedPair (.round (3 / 5)) (.round (19 / 20))).selected.map (·.2))
        ≤ (SelectorConfig.default.resolveFor .futures).maxOpenPositionsPerSymbol) ∧
      ¬ ((rankedPair .nan (.round (19 / 20))).selected.Pairwise fun a b => F64.le b.1 a.1) := by
  decide +kernel

end SelectorRegistry
end Qtss.Risk
