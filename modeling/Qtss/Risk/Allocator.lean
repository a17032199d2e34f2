import Qtss.Lib.Places
import Qtss.Risk.Selector
import Qtss.Risk.State
/-
# The allocator: gates, then a size (`qtss-risk/src/allocator.rs`)

| here | there |
| --- | --- |
| `CommissionRates`, `AllocatorConfig` | allocator.rs:25, :42; `roundTrip` (:36) |
| `Candidate`, `AllocationInput`       | what is read of `SetupCandidate`, and :73 |
| `AllocationOutcome`                  | :83 |
| `AllocatorGate`                      | the trait (:109): a tag and `evaluate` |
| `DrawdownGate`, ..., `MaxExposureGate` | the four implementations (:118-214) |
| `withDefaults`, `evaluate`           | `Allocator::with_defaults` (:232), their order; `Allocator::evaluate` (:245) |
| `sizePosition`                       | `size_position` (:269) |
| `f64ToDecimal`                       | `f64_to_decimal` (:334): printed with eight places and read back |

`f64` and `Decimal` are exact rationals but for that rounding. `size_position` checks the notional and then rounds
the quantity, so an approved size can be zero: `allocation_sound_iff` says when.
-/

namespace Qtss.Risk.Allocation
open Places

/-- A piece of a reason: literal text, a `Decimal` put in with `{}`, an `f64` with `{:.n}`. -/
inductive ReasonPiece where
  | lit (s : String)
  | dec (q : ℚ)
  | fixed (places : ℕ) (q : ℚ)
deriving DecidableEq

abbrev Reason := List ReasonPiece

structure CommissionRates where
  makerBps : ℚ
  takerBps : ℚ
deriving DecidableEq

/-- Maker entry and taker exit, as a fraction of the notional. -/
def CommissionRates.roundTrip (r : CommissionRates) : ℚ := r.makerBps + r.takerBps

structure AllocatorConfig where
  maxSessionDrawdown : ℚ
  minEquity : ℚ
  maxGrossExposure : ℚ
  minEdgeRatio : ℚ
  slippageBps : ℚ
deriving DecidableEq

def AllocatorConfig.default : AllocatorConfig where
  maxSessionDrawdown := 1 / 10
  minEquity := 100
  maxGrossExposure := 3
  minEdgeRatio := 3 / 2
  slippageBps := 10 / 10000

structure Candidate where
  setupId : Uuid
  direction : SetupDirection
  entryPrice : ℚ
  stopPrice : ℚ
  targetPrice : ℚ
  riskPct : ℚ
deriving DecidableEq

structure AllocationInput where
  candidate : Candidate
  account : AccountState
  commission : CommissionRates
  /-- "Aggregate gross notional already deployed". -/
  openNotional : ℚ

inductive AllocationOutcome where
  | approved (setupId : Uuid) (qty notional expectedNetProfit : ℚ)
  | rejected (setupId : Uuid) (gate : String) (reason : Reason)
deriving DecidableEq

/-! ## Gates -/

/-- `evaluate` gives a reason to reject. -/
structure AllocatorGate where
  tag : String
  evaluate : AllocationInput → AllocatorConfig → Option Reason

def DrawdownGate : AllocatorGate where
  tag := "drawdown"
  evaluate input cfg :=
    let dd := input.account.drawdown
    if cfg.maxSessionDrawdown ≤ dd then
      some [.lit "session drawdown ", .fixed 2 (dd * 100), .lit "% >= cap ",
        .fixed 2 (cfg.maxSessionDrawdown * 100), .lit "%"]
    else none

def EquityFloorGate : AllocatorGate where
  tag := "equity_floor"
  evaluate input cfg :=
    if input.account.equity < cfg.minEquity then
      some [.lit "equity ", .dec input.account.equity, .lit " < floor ", .dec cfg.minEquity]
    else none

/-- The way to the target as a fraction of the entry. -/
def grossPct (c : Candidate) : ℚ :=
  match c.direction with
  | .long => (c.targetPrice - c.entryPrice) / c.entryPrice
  | .short => (c.entryPrice - c.targetPrice) / c.entryPrice

def feePct (input : AllocationInput) (cfg : AllocatorConfig) : ℚ :=
  input.commission.roundTrip + cfg.slippageBps

def CommissionGate : AllocatorGate where
  tag := "commission"
  evaluate input cfg :=
    if input.candidate.entryPrice ≤ 0 then some [.lit "non-positive entry price"]
    else
      let gross := grossPct input.candidate
      if gross ≤ 0 then
        some [.lit "non-positive gross_pct ", .fixed 4 gross, .lit " — direction/target mismatch"]
      else
        let fee := feePct input cfg
        if fee ≤ 0 then none
        else
          let ratio := gross / fee
          if ratio < cfg.minEdgeRatio then
            some [.lit "edge ratio ", .fixed 2 ratio, .lit " < ", .fixed 2 cfg.minEdgeRatio, .lit " (gross ",
              .fixed 4 gross, .lit ", fee+slip ", .fixed 4 fee, .lit ")"]
          else none

def MaxExposureGate : AllocatorGate where
  tag := "max_exposure"
  evaluate input cfg :=
    let eq := input.account.equity
    if eq ≤ 0 then some [.lit "non-positive equity"]
    else
      let ratio := input.openNotional / eq
      if cfg.maxGrossExposure ≤ ratio then
        some [.lit "gross exposure ", .fixed 2 ratio, .lit "x >= cap ", .fixed 2 cfg.maxGrossExposure, .lit "x"]
      else none

/-! ## The size -/

def f64ToDecimal (f : ℚ) : ℚ := toPlaces 8 f

def riskPerUnit (c : Candidate) : ℚ :=
  match c.direction with
  | .long => c.entryPrice - c.stopPrice
  | .short => c.stopPrice - c.entryPrice

/-- allocator.rs:269. -/
def sizePosition (input : AllocationInput) (cfg : AllocatorConfig) : AllocationOutcome :=
  let c := input.candidate
  let eq := input.account.equity
  if riskPerUnit c ≤ 0 ∨ c.entryPrice ≤ 0 then
    .rejected c.setupId "sizing" [.lit "non-positive risk_per_unit or entry"]
  else
    let dollarRisk := eq * c.riskPct
    let rawQty := dollarRisk / riskPerUnit c
    let maxTotal := eq * cfg.maxGrossExposure
    let maxNewNotional := max (maxTotal - input.openNotional) 0
    let notional := min (rawQty * c.entryPrice) maxNewNotional
    if notional ≤ 0 then .rejected c.setupId "sizing" [.lit "exposure cap leaves no room"]
    else
      let netPct := grossPct c - feePct input cfg
      .approved c.setupId (f64ToDecimal (notional / c.entryPrice)) (f64ToDecimal notional)
        (f64ToDecimal (notional * netPct))

/-- "equity floor → drawdown → exposure → commission". -/
def withDefaults : List AllocatorGate :=
  [EquityFloorGate, DrawdownGate, MaxExposureGate, CommissionGate]

/-- allocator.rs:245. -/
def evaluate (gates : List AllocatorGate) (input : AllocationInput) (cfg : AllocatorConfig) : AllocationOutcome :=
  match gates with
  | [] => sizePosition input cfg
  | g :: rest =>
    match g.evaluate input cfg with
    | some reason => .rejected input.candidate.setupId g.tag reason
    | none => evaluate rest input cfg

/-! ## What an approval promises -/

/-- What the risk and the exposure cap leave, before it is rounded. -/
def wanted (input : AllocationInput) (cfg : AllocatorConfig) : ℚ :=
  min (input.account.equity * input.candidate.riskPct / riskPerUnit input.candidate)
    (max (input.account.equity * cfg.maxGrossExposure - input.openNotional) 0 / input.candidate.entryPrice)

/-- Every gate lets the candidate through and there is something to size. -/
def Admitted (input : AllocationInput) (cfg : AllocatorConfig) : Prop :=
  (∀ g ∈ withDefaults, g.evaluate input cfg = none) ∧ 0 < riskPerUnit input.candidate ∧ 0 < wanted input cfg

/-- An approved quantity is positive, risks no more than the fraction asked for and stays under the exposure cap, up
to half a unit of its last place; the expected profit is not negative. -/
def Sound (input : AllocationInput) (cfg : AllocatorConfig) : Prop :=
  ∀ id qty notional net, evaluate withDefaults input cfg = .approved id qty notional net →
    0 < qty ∧
    (qty - halfUnit 8) * |input.candidate.entryPrice - input.candidate.stopPrice| ≤
      input.account.equity * input.candidate.riskPct ∧
    input.openNotional + (qty - halfUnit 8) * input.candidate.entryPrice ≤
      input.account.equity * cfg.maxGrossExposure ∧
    0 ≤ net

section approved
variable {input : AllocationInput} {cfg : AllocatorConfig} {id : Uuid} {qty notional net : ℚ}

theorem evaluate_approved_iff (gates : List AllocatorGate) :
    evaluate gates input cfg = .approved id qty notional net ↔
      (∀ g ∈ gates, g.evaluate input cfg = none) ∧ sizePosition input cfg = .approved id qty notional net := by
  induction gates with
  | nil => simp [evaluate]
  | cons g rest ih =>
    unfold evaluate
    cases hg : g.evaluate input cfg with
    | some reason => simp [hg]
    | none => simp [hg, ih]

theorem commission_passes (h : CommissionGate.evaluate input cfg = none) (hedge : 1 ≤ cfg.minEdgeRatio) :
    0 < input.candidate.entryPrice ∧ feePct input cfg ≤ grossPct input.candidate := by
  simp only [CommissionGate] at h
  split_ifs at h with hentry hgross hfee hratio
  · exact ⟨not_le.1 hentry, hfee.trans (not_le.1 hgross).le⟩
  · have hone : 1 ≤ grossPct input.candidate / feePct input cfg := hedge.trans (not_lt.1 hratio)
    exact ⟨not_le.1 hentry, (one_le_div (not_le.1 hfee)).1 hone⟩

theorem max_exposure_passes (h : MaxExposureGate.evaluate input cfg = none) :
    0 < input.account.equity ∧ input.openNotional ≤ input.account.equity * cfg.maxGrossExposure := by
  simp only [MaxExposureGate] at h
  split_ifs at h with hequity hratio
  have hpos := not_le.1 hequity
  refine ⟨hpos, ?_⟩
  rw [mul_comm]
  exact ((div_lt_iff₀ hpos).1 (not_le.1 hratio)).le

/-- The notional, as a quantity of the entry price. -/
theorem notional_eq (hentry : 0 < input.candidate.entryPrice) :
    min (input.account.equity * input.candidate.riskPct / riskPerUnit input.candidate * input.candidate.entryPrice)
        (max (input.account.equity * cfg.maxGrossExposure - input.openNotional) 0) =
      wanted input cfg * input.candidate.entryPrice := by
  rw [wanted, min_mul_of_nonneg _ _ hentry.le, div_mul_cancel₀ _ hentry.ne']

theorem sizePosition_approved_iff (hentry : 0 < input.candidate.entryPrice) :
    sizePosition input cfg = .approved id qty notional net ↔
      0 < riskPerUnit input.candidate ∧ 0 < wanted input cfg ∧ id = input.candidate.setupId ∧
      qty = f64ToDecimal (wanted input cfg) ∧
      notional = f64ToDecimal (wanted input cfg * input.candidate.entryPrice) ∧
      net = f64ToDecimal (wanted input cfg * input.candidate.entryPrice *
        (grossPct input.candidate - feePct input cfg)) := by
  unfold sizePosition
  simp only [notional_eq hentry, mul_div_cancel_right₀ _ hentry.ne']
  split_ifs with hrisk hroom
  · simp only [false_iff, not_and]
    intro hpos
    exact absurd hrisk (by simp [hpos, hentry])
  · simp only [false_iff, not_and]
    intro _ hpos
    exact absurd hroom (not_le.2 (mul_pos hpos hentry))
  · push Not at hrisk
    have hwanted := (mul_pos_iff_of_pos_right hentry).1 (not_le.1 hroom)
    simp only [AllocationOutcome.approved.injEq, hrisk.1, hwanted, true_and, eq_comm]

theorem abs_entry_sub_stop (c : Candidate) (h : 0 < riskPerUnit c) :
    |c.entryPrice - c.stopPrice| = riskPerUnit c := by
  unfold riskPerUnit at h ⊢
  cases hdir : c.direction with
  | long =>
    simp only [hdir] at h ⊢
    exact abs_of_pos h
  | short =>
    simp only [hdir] at h ⊢
    rw [abs_sub_comm]
    exact abs_of_pos h

/-- What the gates and the size say of an approval. -/
theorem approved_spec (hedge : 1 ≤ cfg.minEdgeRatio)
    (h : evaluate withDefaults input cfg = .approved id qty notional net) :
    Admitted input cfg ∧ qty = f64ToDecimal (wanted input cfg) ∧
      0 < input.candidate.entryPrice ∧ 0 ≤ net ∧
      input.openNotional ≤ input.account.equity * cfg.maxGrossExposure := by
  obtain ⟨hgates, hsize⟩ := (evaluate_approved_iff _).1 h
  obtain ⟨hentry, hfee⟩ := commission_passes (hgates CommissionGate (by simp [withDefaults])) hedge
  obtain ⟨-, hroom⟩ := max_exposure_passes (hgates MaxExposureGate (by simp [withDefaults]))
  obtain ⟨hrisk, hwanted, -, hqty, -, hnet⟩ := (sizePosition_approved_iff hentry).1 hsize
  refine ⟨⟨hgates, hrisk, hwanted⟩, hqty, hentry, ?_, hroom⟩
  rw [hnet]
  exact toPlaces_nonneg (mul_nonneg (mul_pos hwanted hentry).le (sub_nonneg.2 hfee))

/-- The rounded quantity keeps the two caps up to half a unit. -/
theorem approved_bounds (hedge : 1 ≤ cfg.minEdgeRatio)
    (h : evaluate withDefaults input cfg = .approved id qty notional net) :
    (qty - halfUnit 8) * |input.candidate.entryPrice - input.candidate.stopPrice| ≤
        input.account.equity * input.candidate.riskPct ∧
      input.openNotional + (qty - halfUnit 8) * input.candidate.entryPrice ≤
        input.account.equity * cfg.maxGrossExposure := by
  obtain ⟨⟨-, hrisk, -⟩, hqty, hentry, -, hroom⟩ := approved_spec hedge h
  have hround : qty - halfUnit 8 ≤ wanted input cfg := by
    rw [hqty]
    exact sub_le_iff_le_add.2 toPlaces_le
  constructor
  · rw [abs_entry_sub_stop _ hrisk]
    exact (le_div_iff₀ hrisk).1 (hround.trans (min_le_left _ _))
  · have hcap := (le_div_iff₀ hentry).1 (hround.trans (min_le_right _ _))
    rw [max_eq_left (sub_nonneg.2 hroom)] at hcap
    linarith

/-- **allocation_sound_iff**: all that an approval promises holds except that the quantity may be
rounded to zero, which happens when no more than half a unit of its last place was wanted. -/
theorem allocation_sound_iff (input : AllocationInput) (cfg : AllocatorConfig) (hedge : 1 ≤ cfg.minEdgeRatio) :
    Sound input cfg ↔ (Admitted input cfg → halfUnit 8 < wanted input cfg) := by
  constructor
  · rintro hsound ⟨hgates, hrisk, hwanted⟩
    obtain ⟨hentry, -⟩ := commission_passes (hgates CommissionGate (by simp [withDefaults])) hedge
    have hsize := (sizePosition_approved_iff hentry).2 ⟨hrisk, hwanted, rfl, rfl, rfl, rfl⟩
    have hqty := (hsound _ _ _ _ ((evaluate_approved_iff _).2 ⟨hgates, hsize⟩)).1
    exact toPlaces_pos_iff.1 hqty
  · intro hwanted id qty notional net h
    obtain ⟨hadmitted, hqty, -, hnet, -⟩ := approved_spec hedge h
    obtain ⟨hrisk, hexposure⟩ := approved_bounds hedge h
    refine ⟨?_, hrisk, hexposure, hnet⟩
    rw [hqty]
    exact toPlaces_pos_iff.2 (hwanted hadmitted)

end approved

/-- A long from 100 with the stop at 98 and the target at 106, one per cent at risk. -/
def longTo106 (equity openNotional : ℚ) : AllocationInput where
  candidate := ⟨0, .long, 100, 98, 106, 1 / 100⟩
  account := ⟨equity, equity, 0, 0, 1, false⟩
  commission := ⟨2 / 10000, 4 / 10000⟩
  openNotional := openNotional

theorem longTo106_sound : Sound (longTo106 10000 0) .default :=
  (allocation_sound_iff _ _ (by decide +kernel)).2 fun _ => by decide +kernel

/-- The cap leaves a room of 1 / 2500000, which is 4 / 1000000000 of a unit at 100. -/
theorem approved_for_nothing : ¬Sound (longTo106 10000 (30000 - 1 / 2500000)) .default := by
  intro hsound
  have happroved : evaluate withDefaults (longTo106 10000 (30000 - 1 / 2500000)) .default =
      .approved 0 0 (40 / 100000000) (2 / 100000000) := by decide +kernel
  exact absurd (hsound _ _ _ _ happroved).1 (lt_irrefl 0)

end Qtss.Risk.Allocation
