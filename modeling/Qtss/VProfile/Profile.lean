import Qtss.Lib.GreedyBand
import Mathlib.Algebra.Order.Field.Rat
import Mathlib.Algebra.BigOperators.Ring.List
import Mathlib.Tactic.IntervalCases
import Mathlib.Tactic.Linarith
/-!
# The volume profile

| here | there |
| --- | --- |
| `VProfileConfig`, `.validate`     | config.rs:9, :52; the lookback of the naked VPOCs is left out |
| `vpocIdx`                         | the `max_by` over the bins, which keeps the last of equal maxima (profile.rs:69) |
| `Band.grow`, `expand`             | one turn of the value-area loop, and the loop (profile.rs:88-109) |
| `prominence`, `hvns`, `lvns`      | the node pass (profile.rs:115-149) |
| `VolumeProfile.derive`            | profile.rs:59 |
| `VolumeProfile.nearestHvn`        | profile.rs:168 |

`Decimal` and `f64` are exact rationals. The value area is documented as the smallest contiguous band around the VPOC
(profile.rs:40). The loop takes the heavier neighbour each time, so that a light bin next to the band hides a heavy one
behind it (`derive_not_smallest`); it is the smallest one where the volumes fall off on both sides (`derive_valueArea`).
-/

namespace Qtss.VProfile
open GreedyBand

inductive VProfileError where
  | invalidConfig (detail : String)
  | insufficientInput (detail : String)
  | numeric (detail : String)
deriving DecidableEq, Repr

structure VProfileConfig where
  binCount : ℕ
  valueAreaPct : ℚ
  hvnMinProminencePct : ℚ
  lvnMaxPct : ℚ
  localNeighbourhoodHalfWidth : ℕ
  minBarsForProfile : ℕ
deriving DecidableEq

def VProfileConfig.defaults : VProfileConfig := ⟨50, 0.70, 1.30, 0.20, 3, 20⟩

def VProfileConfig.validate (cfg : VProfileConfig) : Except VProfileError Unit :=
  if ¬ (5 ≤ cfg.binCount ∧ cfg.binCount ≤ 500) then .error (.invalidConfig "bin_count must be in 5..=500")
  else if ¬ (0.5 ≤ cfg.valueAreaPct ∧ cfg.valueAreaPct ≤ 0.95) then
    .error (.invalidConfig "value_area_pct must be in 0.5..=0.95")
  else if cfg.hvnMinProminencePct ≤ 1 then .error (.invalidConfig "hvn_min_prominence_pct must be > 1.0")
  else if ¬ (0 ≤ cfg.lvnMaxPct ∧ cfg.lvnMaxPct < 1) then .error (.invalidConfig "lvn_max_pct must be in 0..1")
  else if cfg.localNeighbourhoodHalfWidth = 0 then
    .error (.invalidConfig "local_neighbourhood_half_width must be > 0")
  else if cfg.minBarsForProfile = 0 then .error (.invalidConfig "min_bars_for_profile must be > 0")
  else .ok ()

structure VPBin where
  priceLow : ℚ
  priceHigh : ℚ
  volume : ℚ
deriving DecidableEq

def VPBin.mid (b : VPBin) : ℚ := (b.priceLow + b.priceHigh) / 2

structure VolumeProfile where
  priceLow : ℚ
  priceHigh : ℚ
  binSize : ℚ
  bins : List VPBin
  vpoc : ℚ
  vah : ℚ
  val : ℚ
  hvns : List ℚ
  lvns : List ℚ
  totalVolume : ℚ
deriving DecidableEq

/-- `bins[i].volume`; 0 past the end. -/
def volumeAt (bins : List VPBin) (i : ℕ) : ℚ := (bins[i]?.map (·.volume)).getD 0

def vpocIdx (bins : List VPBin) : ℕ :=
  (List.range bins.length).foldl (fun best i => if volumeAt bins best ≤ volumeAt bins i then i else best) 0

/-! ## The value area -/

structure Band where
  lo : ℕ
  hi : ℕ
  acc : ℚ
deriving DecidableEq

/-- The body of the loop; none for its `break`. The sentinel of a side without a bin is below every volume. -/
def Band.grow (bins : List VPBin) (band : Band) : Option Band :=
  let lowerVol := if 0 < band.lo then volumeAt bins (band.lo - 1) else -1
  let upperVol := if band.hi < bins.length - 1 then volumeAt bins (band.hi + 1) else -1
  if upperVol ≥ lowerVol ∧ upperVol ≥ 0 then
    some ⟨band.lo, band.hi + 1, band.acc + volumeAt bins (band.hi + 1)⟩
  else if lowerVol ≥ 0 then some ⟨band.lo - 1, band.hi, band.acc + volumeAt bins (band.lo - 1)⟩
  else none

/-- Each turn takes a bin, so that as many turns as there are bins are enough (`expand_stops`). -/
def expand (bins : List VPBin) (target : ℚ) : ℕ → Band → Band
  | 0, band => band
  | turns + 1, band =>
    if band.acc < target ∧ (0 < band.lo ∨ band.hi < bins.length - 1) then
      match band.grow bins with
      | some next => expand bins target turns next
      | none => band
    else band

def valueArea (bins : List VPBin) (target : ℚ) : Band :=
  expand bins target bins.length ⟨vpocIdx bins, vpocIdx bins, volumeAt bins (vpocIdx bins)⟩

/-! ## Nodes -/

/-- The volume of a bin by the mean of its neighbours; none where the pass goes on to the next bin. -/
def prominence (bins : List VPBin) (half i : ℕ) : Option ℚ :=
  let loN := i - half
  let hiN := min (i + half) (bins.length - 1)
  if hiN - loN < 2 then none
  else
    let neighbourVol := (((List.range' loN (hiN + 1 - loN)).filter (· ≠ i)).map (volumeAt bins)).sum
    let mean := neighbourVol / ((hiN - loN : ℕ) : ℚ)
    if mean ≤ 0 then none else some (volumeAt bins i / mean)

def isHvn (cfg : VProfileConfig) (ratio : ℚ) : Bool := ratio ≥ cfg.hvnMinProminencePct

def isLvn (cfg : VProfileConfig) (ratio : ℚ) : Bool := !isHvn cfg ratio && ratio ≤ cfg.lvnMaxPct

/-- The midpoints of the bins whose prominence is of the kind. -/
def nodes (bins : List VPBin) (half : ℕ) (kind : ℚ → Bool) : List ℚ :=
  bins.zipIdx.filterMap fun (bin, i) =>
    match prominence bins half i with
    | some ratio => if kind ratio then some bin.mid else none
    | none => none

def VolumeProfile.derive (priceLow priceHigh binSize : ℚ) (bins : List VPBin) (cfg : VProfileConfig) :
    VolumeProfile :=
  let totalVolume := (bins.map (·.volume)).sum
  let area := valueArea bins (totalVolume * cfg.valueAreaPct)
  { priceLow, priceHigh, binSize, bins, totalVolume
    vpoc := (bins[vpocIdx bins]?.map (·.mid)).getD priceLow
    vah := (bins[area.hi]?.map (·.priceHigh)).getD priceHigh
    val := (bins[area.lo]?.map (·.priceLow)).getD priceLow
    hvns := nodes bins cfg.localNeighbourhoodHalfWidth (isHvn cfg)
    lvns := nodes bins cfg.localNeighbourhoodHalfWidth (isLvn cfg) }

@[simp] theorem VolumeProfile.bins_derive (priceLow priceHigh binSize : ℚ) (bins : List VPBin) (cfg : VProfileConfig) :
    (derive priceLow priceHigh binSize bins cfg).bins = bins := rfl

/-- `min_by` keeps the first of equal distances. -/
def VolumeProfile.nearestHvn (p : VolumeProfile) (price : ℚ) (up : Bool) : Option ℚ :=
  match p.hvns.filter fun h => if up then h > price else h < price with
  | [] => none
  | first :: rest => some (rest.foldl (fun best h => if |h - price| < |best - price| then h else best) first)

/-! ## What the configuration promises -/

theorem validate_defaults : VProfileConfig.defaults.validate = .ok () := by decide +kernel

/-- The bounds of an accepted configuration. -/
structure VProfileConfig.Valid (cfg : VProfileConfig) : Prop where
  binCount : 5 ≤ cfg.binCount
  pctPos : 0 < cfg.valueAreaPct
  pctLe : cfg.valueAreaPct ≤ 1
  hvn : 1 < cfg.hvnMinProminencePct
  lvn : cfg.lvnMaxPct < 1
  minBars : 0 < cfg.minBarsForProfile

theorem VProfileConfig.valid {cfg : VProfileConfig} (h : cfg.validate = .ok ()) : cfg.Valid := by
  unfold VProfileConfig.validate at h
  split_ifs at h with hbins hpct hhvn hlvn hhalf hmin
  exact ⟨hbins.1, by linarith, by linarith, not_le.1 hhvn, hlvn.2, Nat.pos_of_ne_zero hmin⟩

/-! ## Bins -/

section bins
variable {bins : List VPBin} {i : ℕ}

theorem volumeAt_nonneg (hvol : ∀ b ∈ bins, 0 ≤ b.volume) (i : ℕ) : 0 ≤ volumeAt bins i := by
  unfold volumeAt
  cases hbin : bins[i]? with
  | none => exact le_rfl
  | some b => exact hvol b (List.mem_of_getElem? hbin)

/-- The volume below a boundary, bin by bin. -/
theorem sum_take_volume (bins : List VPBin) (k : ℕ) :
    ((bins.take k).map (·.volume)).sum = ∑ i ∈ Finset.range k, volumeAt bins i := by
  induction k with
  | zero => rfl
  | succ k ih =>
    rw [Finset.sum_range_succ, ← ih, List.take_add_one, List.map_append, List.sum_append, volumeAt]
    cases bins[k]? <;> simp

theorem weight_all (hne : 0 < bins.length) :
    weight (volumeAt bins) 0 (bins.length - 1) = (bins.map (·.volume)).sum := by
  rw [weight, Nat.sub_add_cancel hne, ← Finset.range_eq_Ico, ← sum_take_volume, List.take_length]

theorem vpocIdx_spec (bins : List VPBin) {n : ℕ} (hn : 0 < n) :
    let best := (List.range n).foldl (fun best i => if volumeAt bins best ≤ volumeAt bins i then i else best) 0
    best < n ∧ ∀ i < n, volumeAt bins i ≤ volumeAt bins best := by
  induction n, hn using Nat.le_induction with
  | base => simp
  | succ n hn ih =>
    simp only [List.range_succ, List.foldl_append, List.foldl_cons, List.foldl_nil]
    obtain ⟨hlt, hmax⟩ := ih
    split
    · rename_i hle
      refine ⟨Nat.lt_succ_self n, fun i hi => ?_⟩
      rcases Nat.lt_succ_iff_lt_or_eq.1 hi with hi | rfl
      · exact (hmax i hi).trans hle
      · exact le_rfl
    · rename_i hgt
      refine ⟨Nat.lt_succ_of_lt hlt, fun i hi => ?_⟩
      rcases Nat.lt_succ_iff_lt_or_eq.1 hi with hi | rfl
      · exact hmax i hi
      · exact (not_le.1 hgt).le

theorem vpocIdx_lt (hne : 0 < bins.length) : vpocIdx bins < bins.length := (vpocIdx_spec bins hne).1

end bins

/-! ## What the loop leaves -/

section area
variable {bins : List VPBin} {target : ℚ} {p : ℕ} {band next : Band}

/-- The band has grown from the VPOC and `acc` is its volume. -/
structure Band.Ok (bins : List VPBin) (target : ℚ) (p : ℕ) (band : Band) : Prop where
  grown : Grown (volumeAt bins) bins.length p target band.lo band.hi
  acc : band.acc = weight (volumeAt bins) band.lo band.hi
  lt : band.hi < bins.length

variable (hvol : ∀ b ∈ bins, 0 ≤ b.volume)
include hvol

/-- One turn takes one bin, the heavier of the two neighbours. -/
theorem Band.Ok.grow (hok : band.Ok bins target p) (hshort : band.acc < target)
    (hroom : 0 < band.lo ∨ band.hi < bins.length - 1) :
    ∃ next, band.grow bins = some next ∧ next.Ok bins target p ∧ next.hi - next.lo = band.hi - band.lo + 1 := by
  obtain ⟨hgrown, hacc, hlt⟩ := hok
  have hle := hgrown.around.1.trans hgrown.around.2
  have hlower := volumeAt_nonneg hvol (band.lo - 1)
  have hupper := volumeAt_nonneg hvol (band.hi + 1)
  rw [hacc] at hshort
  obtain ⟨lo, hi, acc⟩ := band
  simp only at *
  subst hacc
  by_cases hup : hi < bins.length - 1
  · by_cases hpick : 0 < lo → volumeAt bins (lo - 1) ≤ volumeAt bins (hi + 1)
    · refine ⟨⟨lo, hi + 1, _⟩, ?_, ⟨hgrown.upper hshort (by omega) hpick, (weight_upper (by omega)).symm,
        Nat.add_lt_of_lt_sub hup⟩,
        by simp only; omega⟩
      have htake : (if 0 < lo then volumeAt bins (lo - 1) else -1) ≤ volumeAt bins (hi + 1) := by
        split
        · exact hpick ‹_›
        · linarith
      simp only [Band.grow, if_pos hup, ge_iff_le, htake, hupper, and_self, if_true]
    · obtain ⟨hlo, hless⟩ := Classical.not_imp.1 hpick
      obtain ⟨lo, rfl⟩ := Nat.exists_eq_add_of_lt hlo
      simp only [Nat.zero_add, Nat.add_sub_cancel] at *
      refine ⟨⟨lo, hi, weight (volumeAt bins) (lo + 1) hi + volumeAt bins lo⟩, ?_, ⟨hgrown.lower hshort fun _ => not_le.1 hless, ?_, hlt⟩, by simp only; omega⟩
      · simp [Band.grow, hup, hless, hlower]
      · exact (add_comm _ _).trans (weight_lower (by omega)).symm
  · have hlo : 0 < lo := hroom.resolve_right hup
    obtain ⟨lo, rfl⟩ := Nat.exists_eq_add_of_lt hlo
    simp only [Nat.zero_add, Nat.add_sub_cancel] at *
    refine ⟨⟨lo, hi, weight (volumeAt bins) (lo + 1) hi + volumeAt bins lo⟩, ?_, ⟨hgrown.lower hshort fun h => absurd h (by omega), ?_, hlt⟩, by simp only; omega⟩
    · have hsentinel : ¬ volumeAt bins lo ≤ -1 := by linarith
      simp [Band.grow, hup, hsentinel, hlower]
    · exact (add_comm _ _).trans (weight_lower (by omega)).symm

/-- The loop keeps the band a grown one, and stops at the target or with all the bins. -/
theorem expand_stops (turns : ℕ) (band : Band) (hok : band.Ok bins target p)
    (hturns : bins.length ≤ turns + (band.hi - band.lo) + 1) :
    (expand bins target turns band).Ok bins target p ∧ (target ≤ (expand bins target turns band).acc ∨
      (expand bins target turns band).lo = 0 ∧ (expand bins target turns band).hi = bins.length - 1) := by
  induction turns generalizing band with
  | zero =>
    have hlt := hok.lt
    have hle := hok.grown.around.1.trans hok.grown.around.2
    exact ⟨hok, .inr ⟨by simp only [expand]; omega, by simp only [expand]; omega⟩⟩
  | succ turns ih =>
    rw [expand]
    split
    · rename_i hgo
      obtain ⟨next, hnext, hok', hlength⟩ := hok.grow hvol hgo.1 hgo.2
      rw [hnext]
      exact ih next hok' (by omega)
    · rename_i hstop
      refine ⟨hok, (not_and_or.1 hstop).imp not_lt.1 fun hroom => ?_⟩
      have hlt := hok.lt
      omega

theorem valueArea_spec (hne : 0 < bins.length) (htarget : target ≤ (bins.map (·.volume)).sum) :
    (valueArea bins target).Ok bins target (vpocIdx bins) ∧ target ≤ (valueArea bins target).acc := by
  have hself : weight (volumeAt bins) (vpocIdx bins) (vpocIdx bins) = _ := weight_self _
  have hstart : Band.Ok bins target (vpocIdx bins) ⟨vpocIdx bins, vpocIdx bins, volumeAt bins (vpocIdx bins)⟩ :=
    ⟨.start, hself.symm, vpocIdx_lt hne⟩
  obtain ⟨hok, hreach | ⟨hlo, hhi⟩⟩ := expand_stops hvol bins.length _ hstart (by omega)
  · exact ⟨hok, hreach⟩
  · refine ⟨hok, ?_⟩
    have hacc := hok.acc
    rw [hlo, hhi, weight_all hne] at hacc
    exact htarget.trans hacc.ge

end area

/-! ## The value area of a profile -/

/-- `lo … hi` is the run of bins that the profile reports as its value area: it contains the VPOC and has the part of
the volume that the configuration asks for. -/
structure VolumeProfile.IsArea (p : VolumeProfile) (cfg : VProfileConfig) (lo hi : ℕ) : Prop where
  vpoc : p.bins[vpocIdx p.bins]?.map (·.mid) = some p.vpoc
  around : lo ≤ vpocIdx p.bins ∧ vpocIdx p.bins ≤ hi ∧ hi < p.bins.length
  val : p.bins[lo]?.map (·.priceLow) = some p.val
  vah : p.bins[hi]?.map (·.priceHigh) = some p.vah
  volume : cfg.valueAreaPct * p.totalVolume ≤ weight (volumeAt p.bins) lo hi

/-- No run with fewer bins that contains the VPOC has that volume. -/
def VolumeProfile.Smallest (p : VolumeProfile) (cfg : VProfileConfig) (lo hi : ℕ) : Prop :=
  ∀ a b, a ≤ vpocIdx p.bins → vpocIdx p.bins ≤ b → b < p.bins.length →
    cfg.valueAreaPct * p.totalVolume ≤ weight (volumeAt p.bins) a b → hi - lo ≤ b - a

/-- **The value area** is a run of bins around the VPOC with the volume asked for, grown by the heavier neighbour as
long as it was short of it. Where the volumes do not rise on the way from the VPOC, it is the smallest. -/
theorem derive_valueArea {cfg : VProfileConfig} (hcfg : cfg.validate = .ok ()) {bins : List VPBin}
    (hvol : ∀ b ∈ bins, 0 ≤ b.volume) (hpos : 0 < (bins.map (·.volume)).sum) (priceLow priceHigh binSize : ℚ) :
    let p := VolumeProfile.derive priceLow priceHigh binSize bins cfg
    p.bins = bins ∧ p.totalVolume = (bins.map (·.volume)).sum ∧ ∃ lo hi, p.IsArea cfg lo hi ∧
      Grown (volumeAt bins) bins.length (vpocIdx bins) (cfg.valueAreaPct * p.totalVolume) lo hi ∧
      (Peaked (volumeAt bins) bins.length (vpocIdx bins) → p.Smallest cfg lo hi) := by
  intro p
  have hvalid := cfg.valid hcfg
  have hne : 0 < bins.length := by
    cases bins with
    | nil => exact absurd hpos (lt_irrefl _)
    | cons b rest => exact Nat.succ_pos _
  have htarget : (bins.map (·.volume)).sum * cfg.valueAreaPct ≤ (bins.map (·.volume)).sum :=
    mul_le_of_le_one_right hpos.le hvalid.pctLe
  obtain ⟨⟨hgrown, hacc, hlt⟩, hreach⟩ := valueArea_spec hvol hne htarget
  rw [mul_comm] at hgrown hacc hlt hreach
  have hvpoc := vpocIdx_lt hne
  obtain ⟨hlo, hhi⟩ := hgrown.around
  have harea : p.IsArea cfg (valueArea bins (cfg.valueAreaPct * (bins.map (·.volume)).sum)).lo
      (valueArea bins (cfg.valueAreaPct * (bins.map (·.volume)).sum)).hi := by
    refine ⟨?_, ⟨hlo, hhi, hlt⟩, ?_, ?_, hreach.trans_eq hacc⟩
    · simp [p, VolumeProfile.derive, hvpoc]
    · simp [p, VolumeProfile.derive, mul_comm, hlo.trans_lt hvpoc]
    · simp [p, VolumeProfile.derive, mul_comm, hlt]
  exact ⟨rfl, rfl, _, _, harea, hgrown, fun hpeak a b ha hb hbn => hgrown.shortest hpeak hvpoc ha hb hbn⟩

def bellBins : List VPBin := [⟨0, 1, 1⟩, ⟨1, 2, 3⟩, ⟨2, 3, 5⟩, ⟨3, 4, 4⟩, ⟨4, 5, 2⟩]

theorem peaked_bellBins : Peaked (volumeAt bellBins) bellBins.length (vpocIdx bellBins) where
  rising {i j} hij hj := by
    have hj : j ≤ 2 := hj
    interval_cases j <;> interval_cases i <;> decide +kernel
  falling {i j} hi hij hj := by
    have hi : 2 ≤ i := hi
    have hj : j < 5 := hj
    interval_cases j <;> interval_cases i <;> decide +kernel

theorem derive_valueArea_bell : ∃ lo hi, (VolumeProfile.derive 0 5 1 bellBins .defaults).IsArea .defaults lo hi ∧
    (VolumeProfile.derive 0 5 1 bellBins .defaults).Smallest .defaults lo hi := by
  have hvol : ∀ b ∈ bellBins, 0 ≤ b.volume := by decide +kernel
  obtain ⟨-, -, lo, hi, harea, -, hsmallest⟩ := derive_valueArea validate_defaults hvol (by decide +kernel) 0 5 1
  exact ⟨lo, hi, harea, hsmallest peaked_bellBins⟩

/-- The bin of volume 1 hides the one of volume 30 from the loop. -/
def hidingBins : List VPBin := [⟨0, 1, 30⟩, ⟨1, 2, 1⟩, ⟨2, 3, 40⟩, ⟨3, 4, 2⟩, ⟨4, 5, 2⟩]

/-- All five bins are reported, and three have the volume: 71 of 75. -/
theorem derive_not_smallest : VProfileConfig.defaults.validate = .ok () ∧ (∀ b ∈ hidingBins, 0 ≤ b.volume) ∧
    0 < (hidingBins.map (·.volume)).sum ∧
    (∃ lo hi, (VolumeProfile.derive 0 5 1 hidingBins .defaults).IsArea .defaults lo hi) ∧
    ¬ ∃ lo hi, (VolumeProfile.derive 0 5 1 hidingBins .defaults).IsArea .defaults lo hi ∧
      (VolumeProfile.derive 0 5 1 hidingBins .defaults).Smallest .defaults lo hi := by
  refine ⟨validate_defaults, by decide +kernel, by decide +kernel, ⟨0, 4, ?_⟩, ?_⟩
  · constructor <;> decide +kernel
  · rintro ⟨lo, hi, ⟨-, ⟨hlo, -, hhi⟩, hval, hvah, -⟩, hsmallest⟩
    have hlo : lo ≤ 2 := hlo
    have hhi : hi < 5 := hhi
    have hlo : lo = 0 := by
      interval_cases lo
      · rfl
      · exact absurd hval (by decide +kernel)
      · exact absurd hval (by decide +kernel)
    have hhi : hi = 4 := by
      interval_cases hi
      iterate 4 exact absurd hvah (by decide +kernel)
      rfl
    have hshorter := hsmallest 0 2 (by decide +kernel) (by decide +kernel) (by decide +kernel) (by decide +kernel)
    omega

end Qtss.VProfile
