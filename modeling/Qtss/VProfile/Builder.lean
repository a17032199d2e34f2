import Qtss.VProfile.Profile
import Mathlib.Data.Rat.Floor
import Mathlib.Algebra.BigOperators.Group.List.Basic
import Mathlib.Algebra.BigOperators.Group.Finset.Sigma
import Mathlib.Tactic.FieldSimp
import Mathlib.Tactic.Ring
/-!
# The bar-based builder

| here | there |
| --- | --- |
| `Bar`                         | what `build` reads of the bars of `qtss_domain::v2` |
| `binIndex`                    | builder.rs:109; the `f64` quotient and `Decimal` are exact rationals |
| `window`, `emptyBins`         | builder.rs:47-57, :70-87 |
| `VPBin.addOverlap`            | the body of the inner loop (builder.rs:96-103) |
| `distribute`                  | the body of the loop over the bars (builder.rs:91-104) |
| `build`                       | builder.rs:36 |

A bar leaves in each bin the part of its volume that its range has there: what `share` says is the difference of two
values of one function of the boundary (`distribute_spec`), so that the bins below a boundary sum up to what the bars
have below it (`build_conserves`). The guard on `b.high <= b.low` (builder.rs:91) leaves bars of a single price out.
-/

namespace Qtss.VProfile

structure Bar where
  low : ℚ
  high : ℚ
  volume : ℚ
deriving DecidableEq

def binIndex (price lo binSize : ℚ) (binCount : ℕ) : ℕ :=
  if binSize ≤ 0 then 0
  else
    let idx := ⌊(price - lo) / binSize⌋
    if idx < 0 then 0 else if binCount ≤ idx.toNat then binCount - 1 else idx.toNat

/-- (Without bars `bars[0]` would panic; a configuration asks for one at least.) -/
def window : List Bar → ℚ × ℚ
  | [] => (0, 0)
  | first :: rest => rest.foldl
      (fun w b => (if b.low < w.1 then b.low else w.1, if b.high > w.2 then b.high else w.2)) (first.low, first.high)

def emptyBins (lo hi binSize : ℚ) (binCount : ℕ) : List VPBin :=
  (List.range binCount).map fun i : ℕ =>
    { priceLow := lo + binSize * i
      priceHigh := if i = binCount - 1 then hi else lo + binSize * (i + 1 : ℕ)
      volume := 0 }

def VPBin.addOverlap (bin : VPBin) (b : Bar) : VPBin :=
  let ovLo := if b.low > bin.priceLow then b.low else bin.priceLow
  let ovHi := if b.high < bin.priceHigh then b.high else bin.priceHigh
  if ovHi ≤ ovLo then bin
  else { bin with volume := bin.volume + (ovHi - ovLo) * b.volume / (b.high - b.low) }

def distribute (lo binSize : ℚ) (binCount : ℕ) (bins : List VPBin) (b : Bar) : List VPBin :=
  if b.volume ≤ 0 ∨ b.high ≤ b.low then bins
  else
    let first := binIndex b.low lo binSize binCount
    let last := binIndex b.high lo binSize binCount
    (List.range' first (last + 1 - first)).foldl (fun bins i => bins.modify i (·.addOverlap b)) bins

def build (bars : List Bar) (cfg : VProfileConfig) : Except VProfileError VolumeProfile :=
  match cfg.validate with
  | .error err => .error err
  | .ok () =>
    if bars.length < cfg.minBarsForProfile then
      .error (.insufficientInput
        ("need at least " ++ toString cfg.minBarsForProfile ++ " bars, got " ++ toString bars.length))
    else
      let (lo, hi) := window bars
      if hi ≤ lo then .error (.insufficientInput "degenerate range — high <= low")
      else
        let binSize := (hi - lo) / cfg.binCount
        if binSize ≤ 0 then .error (.insufficientInput "bin_size collapsed to zero — range too narrow")
        else
          let bins := bars.foldl (distribute lo binSize cfg.binCount) (emptyBins lo hi binSize cfg.binCount)
          .ok (.derive lo hi binSize bins cfg)

/-! ## The window -/

/-- The window reaches from the lowest low to the highest high. -/
structure IsWindow (bars : List Bar) (w : ℚ × ℚ) : Prop where
  low : (∀ b ∈ bars, w.1 ≤ b.low) ∧ ∃ b ∈ bars, b.low = w.1
  high : (∀ b ∈ bars, b.high ≤ w.2) ∧ ∃ b ∈ bars, b.high = w.2

theorem isWindow_window {bars : List Bar} (hne : bars ≠ []) : IsWindow bars (window bars) := by
  obtain ⟨first, rest, rfl⟩ := List.exists_cons_of_ne_nil hne
  induction rest using List.reverseRecOn with
  | nil => constructor <;> simp [window]
  | append_singleton rest b ih =>
    obtain ⟨⟨hlow, a, ha, hlowa⟩, hhigh, c, hc, hhighc⟩ := ih (List.cons_ne_nil _ _)
    have hstep : window (first :: (rest ++ [b])) = (if b.low < (window (first :: rest)).1 then b.low
        else (window (first :: rest)).1, if b.high > (window (first :: rest)).2 then b.high
        else (window (first :: rest)).2) := by simp [window, List.foldl_append]
    rw [hstep, ← List.cons_append]
    refine ⟨⟨fun x hx => ?_, ?_⟩, fun x hx => ?_, ?_⟩
    · rcases List.mem_append.1 hx with hx | hx
      · have hx := hlow x hx
        dsimp only
        split <;> linarith
      · rw [List.mem_singleton.1 hx]
        dsimp only
        split <;> linarith
    · dsimp only
      split
      · exact ⟨b, by simp, rfl⟩
      · exact ⟨a, List.mem_append_left _ ha, hlowa⟩
    · rcases List.mem_append.1 hx with hx | hx
      · have hx := hhigh x hx
        dsimp only
        split <;> linarith
      · rw [List.mem_singleton.1 hx]
        dsimp only
        split <;> linarith
    · dsimp only
      split
      · exact ⟨b, by simp, rfl⟩
      · exact ⟨c, List.mem_append_left _ hc, hhighc⟩

theorem window_perm {bars bars' : List Bar} (h : bars.Perm bars') : window bars = window bars' := by
  by_cases hne : bars = []
  · subst hne
    rw [List.nil_perm.1 h]
  obtain ⟨⟨hlow, a, ha, hlowa⟩, hhigh, b, hb, hhighb⟩ := isWindow_window hne
  obtain ⟨⟨hlow', a', ha', hlowa'⟩, hhigh', b', hb', hhighb'⟩ := isWindow_window fun h' => hne (List.perm_nil.1 (h' ▸ h))
  refine Prod.ext (le_antisymm ?_ ?_) (le_antisymm ?_ ?_)
  · exact hlowa' ▸ hlow a' (h.mem_iff.2 ha')
  · exact hlowa ▸ hlow' a (h.mem_iff.1 ha)
  · exact hhighb ▸ hhigh' b (h.mem_iff.1 hb)
  · exact hhighb' ▸ hhigh b' (h.mem_iff.2 hb')

/-! ## What one bar leaves -/

/-- The part of the bar's range below `x`. -/
def Bar.fractionBelow (b : Bar) (x : ℚ) : ℚ := (max b.low (min b.high x) - b.low) / (b.high - b.low)

/-- What the bar leaves between two prices. -/
def Bar.share (b : Bar) (x y : ℚ) : ℚ :=
  if b.volume ≤ 0 ∨ b.high ≤ b.low then 0 else b.volume * (b.fractionBelow y - b.fractionBelow x)

section one
variable {b : Bar} {x y : ℚ}

theorem Bar.share_nonneg (hxy : x ≤ y) : 0 ≤ b.share x y := by
  unfold Bar.share
  split
  · exact le_rfl
  · rename_i hguard
    obtain ⟨hvolume, hrange⟩ := not_or.1 hguard
    have hmono : max b.low (min b.high x) ≤ max b.low (min b.high y) :=
      max_le_max_left _ (min_le_min_left _ hxy)
    refine mul_nonneg (not_le.1 hvolume).le (sub_nonneg.2 ?_)
    exact div_le_div_of_nonneg_right (sub_le_sub_right hmono _) (sub_nonneg.2 (not_le.1 hrange).le)

/-- The overlap of the bar with a bin, if there is one. -/
theorem overlap_eq (hrange : b.low < b.high) (hxy : x < y) :
    max b.low (min b.high y) - max b.low (min b.high x) = max 0 (min b.high y - max b.low x) := by
  rcases le_or_gt y b.low with hbelow | hlow
  · have hx : min b.high x ≤ b.low := (min_le_right _ _).trans (hxy.le.trans hbelow)
    have hy : min b.high y ≤ b.low := (min_le_right _ _).trans hbelow
    have hnone : min b.high y - max b.low x ≤ 0 := sub_nonpos.2 (hy.trans (le_max_left _ _))
    rw [max_eq_left hx, max_eq_left hy, max_eq_left hnone, sub_self]
  rcases le_or_gt b.high x with habove | hhigh
  · have hnone : min b.high y - max b.low x ≤ 0 :=
      sub_nonpos.2 ((min_le_left _ _).trans (habove.trans (le_max_right _ _)))
    rw [max_eq_left hnone, min_eq_left habove, min_eq_left (habove.trans hxy.le), sub_self]
  · have hlow' : b.low ≤ min b.high y := le_min hrange.le hlow.le
    have hsome : max b.low x ≤ min b.high y := max_le hlow' (le_min hhigh.le hxy.le)
    rw [min_eq_right hhigh.le, max_eq_right hlow', max_eq_right (sub_nonneg.2 hsome)]

theorem addOverlap_eq (bin : VPBin) (hvolume : 0 < b.volume) (hrange : b.low < b.high)
    (hbin : bin.priceLow < bin.priceHigh) :
    bin.addOverlap b = { bin with volume := bin.volume + b.share bin.priceLow bin.priceHigh } := by
  have hshare : b.share bin.priceLow bin.priceHigh =
      max 0 (min b.high bin.priceHigh - max b.low bin.priceLow) * b.volume / (b.high - b.low) := by
    rw [Bar.share, if_neg (not_or.2 ⟨not_le.2 hvolume, not_le.2 hrange⟩), ← overlap_eq hrange hbin, Bar.fractionBelow,
      Bar.fractionBelow]
    ring
  have hlo : (if b.low > bin.priceLow then b.low else bin.priceLow) = max b.low bin.priceLow := by
    rw [max_comm, max_def_lt]
  have hhi : (if b.high < bin.priceHigh then b.high else bin.priceHigh) = min b.high bin.priceHigh := by
    rw [min_def_lt]
  unfold VPBin.addOverlap
  simp only [hlo, hhi, hshare]
  split
  · rename_i hnone
    simp [max_eq_left (sub_nonpos.2 hnone)]
  · rename_i hsome
    rw [max_eq_right (sub_nonneg.2 (not_le.1 hsome).le)]

theorem Bar.share_of_le_low (hxy : x ≤ y) (hy : y ≤ b.low) : b.share x y = 0 := by
  have hbelow : ∀ z ≤ b.low, b.fractionBelow z = 0 := fun z hz => by
    rw [Bar.fractionBelow, max_eq_left ((min_le_right _ _).trans hz), sub_self, zero_div]
  rw [Bar.share, hbelow y hy, hbelow x (hxy.trans hy), sub_self, mul_zero, ite_self]

theorem Bar.share_of_high_le (hxy : x ≤ y) (hx : b.high ≤ x) : b.share x y = 0 := by
  rw [Bar.share, Bar.fractionBelow, Bar.fractionBelow, min_eq_left hx, min_eq_left (hx.trans hxy), sub_self, mul_zero,
    ite_self]

theorem Bar.share_add_share (b : Bar) (x y z : ℚ) : b.share x y + b.share y z = b.share x z := by
  unfold Bar.share
  split
  · exact add_zero 0
  · ring

/-- From the lower end of the window on, a bar leaves below `y` its part there, if it has a range. -/
theorem Bar.share_from {lo : ℚ} (hlo : lo ≤ b.low) (hvolume : 0 ≤ b.volume) (y : ℚ) :
    b.share lo y = if b.low < b.high then b.volume * b.fractionBelow y else 0 := by
  have hzero : b.fractionBelow lo = 0 := by
    rw [Bar.fractionBelow, max_eq_left ((min_le_right _ _).trans hlo), sub_self, zero_div]
  unfold Bar.share
  split
  · rename_i hguard
    split
    · rename_i hrange
      have hnone : b.volume = 0 := (hguard.resolve_right (not_le.2 hrange)).antisymm hvolume
      rw [hnone, zero_mul]
    · rfl
  · rename_i hguard
    rw [if_pos (not_le.1 (not_or.1 hguard).2), hzero, sub_zero]

theorem Bar.fractionBelow_of_high_le (hrange : b.low < b.high) (h : b.high ≤ x) : b.fractionBelow x = 1 := by
  rw [Bar.fractionBelow, min_eq_left h, max_eq_right hrange.le, div_self (sub_pos.2 hrange).ne']

end one

/-! ## The grid -/

/-- Boundary `i` of the bins. -/
def edge (lo binSize : ℚ) (i : ℕ) : ℚ := lo + binSize * i

/-- The bins of the grid with these volumes. -/
def gridBins (lo binSize : ℚ) (n : ℕ) (volume : ℕ → ℚ) : List VPBin :=
  (List.range n).map fun i => ⟨edge lo binSize i, edge lo binSize (i + 1), volume i⟩

section grid
variable {lo hi binSize price : ℚ} {n i k : ℕ} {volume : ℕ → ℚ} {b : Bar} {bars : List Bar}

@[simp] theorem length_gridBins : (gridBins lo binSize n volume).length = n := by simp [gridBins]

theorem getElem?_gridBins (hin : i < n) :
    (gridBins lo binSize n volume)[i]? = some ⟨edge lo binSize i, edge lo binSize (i + 1), volume i⟩ := by
  simp [gridBins, hin]

theorem volumeAt_gridBins (hin : i < n) : volumeAt (gridBins lo binSize n volume) i = volume i := by
  rw [volumeAt, getElem?_gridBins hin, Option.map_some, Option.getD_some]

theorem emptyBins_eq (hhi : edge lo binSize n = hi) :
    emptyBins lo hi binSize n = gridBins lo binSize n fun _ => 0 := by
  unfold emptyBins gridBins
  refine List.map_congr_left fun i hin => ?_
  have hin := List.mem_range.1 hin
  rw [VPBin.mk.injEq]
  refine ⟨rfl, ?_, rfl⟩
  split
  · rw [← hhi, show i + 1 = n by omega]
  · rfl

section size
variable (hsize : 0 < binSize)
include hsize

theorem edge_lt (i : ℕ) : edge lo binSize i < edge lo binSize (i + 1) := by
  unfold edge
  rw [Nat.cast_add_one]
  linarith

/-- The bins before the index are below the price. -/
theorem edge_le_of_lt_binIndex (h : i < binIndex price lo binSize n) : edge lo binSize (i + 1) ≤ price := by
  rw [binIndex, if_neg (not_le.2 hsize)] at h
  dsimp only at h
  have hidx : (i + 1 : ℤ) ≤ ⌊(price - lo) / binSize⌋ := by
    split_ifs at h <;> omega
  have hquot := Int.le_floor.1 hidx
  rw [le_div_iff₀ hsize] at hquot
  push_cast [edge] at *
  linarith

/-- The bins after it are above. -/
theorem lt_edge_of_binIndex_lt (h : binIndex price lo binSize n < i) (hin : i < n) : price < edge lo binSize i := by
  rw [binIndex, if_neg (not_le.2 hsize)] at h
  dsimp only at h
  have hidx : ⌊(price - lo) / binSize⌋ < (i : ℤ) := by
    split_ifs at h <;> omega
  have hquot := Int.floor_lt.1 hidx
  rw [div_lt_iff₀ hsize] at hquot
  push_cast [edge] at *
  linarith

/-- A bin that the loop does not look at has nothing of the bar. -/
theorem share_outside (hin : i < n)
    (hout : ¬ (binIndex b.low lo binSize n ≤ i ∧ i ≤ binIndex b.high lo binSize n)) :
    b.share (edge lo binSize i) (edge lo binSize (i + 1)) = 0 := by
  have hle : edge lo binSize i ≤ _ := (edge_lt hsize i).le
  rcases not_and_or.1 hout with hbefore | hafter
  · exact Bar.share_of_le_low hle (edge_le_of_lt_binIndex hsize (not_le.1 hbefore))
  · exact Bar.share_of_high_le hle (lt_edge_of_binIndex_lt hsize (not_le.1 hafter) hin).le

end size

theorem getElem?_foldl_modify {α : Type*} (f : α → α) (first count : ℕ) (l : List α) (i : ℕ) :
    ((List.range' first count).foldl (fun l i => l.modify i f) l)[i]? =
      if first ≤ i ∧ i < first + count then l[i]?.map f else l[i]? := by
  induction count generalizing first l with
  | zero => simp
  | succ count ih =>
    rw [List.range'_succ, List.foldl_cons, ih, List.getElem?_modify]
    by_cases hfirst : first = i
    · subst hfirst
      simp
    · have hiff : (first + 1 ≤ i ∧ i < first + 1 + count) ↔ first ≤ i ∧ i < first + (count + 1) := by omega
      simp only [hiff, hfirst, if_false, id_map']

/-- **One bar** adds to each bin its share there. -/
theorem distribute_spec (hsize : 0 < binSize) : distribute lo binSize n (gridBins lo binSize n volume) b =
    gridBins lo binSize n fun i => volume i + b.share (edge lo binSize i) (edge lo binSize (i + 1)) := by
  unfold distribute
  split
  · rename_i hguard
    simp only [Bar.share, if_pos hguard, add_zero]
  · rename_i hguard
    obtain ⟨hvolume, hrange⟩ := not_or.1 hguard
    refine List.ext_getElem? fun i => ?_
    rw [getElem?_foldl_modify]
    rcases Nat.lt_or_ge i n with hin | hout
    · rw [getElem?_gridBins hin, getElem?_gridBins hin]
      split
      · rw [Option.map_some, addOverlap_eq _ (not_le.1 hvolume) (not_le.1 hrange) (edge_lt hsize i)]
      · rename_i hnot
        rw [share_outside hsize hin (fun h => hnot ⟨h.1, by omega⟩), add_zero]
    · rw [List.getElem?_eq_none (by simpa using hout), List.getElem?_eq_none (by simpa using hout), Option.map_none,
        ite_self]

/-- **All the bars**. -/
theorem foldl_distribute (hsize : 0 < binSize) (volume : ℕ → ℚ) :
    bars.foldl (distribute lo binSize n) (gridBins lo binSize n volume) = gridBins lo binSize n fun i =>
      volume i + (bars.map fun b => b.share (edge lo binSize i) (edge lo binSize (i + 1))).sum := by
  induction bars generalizing volume with
  | nil => simp
  | cons b bars ih =>
    rw [List.foldl_cons, distribute_spec hsize, ih]
    simp only [List.map_cons, List.sum_cons, add_assoc]

/-- The shares of a bar below a boundary are its share from the lower end to the boundary. -/
theorem sum_share (b : Bar) (k : ℕ) :
    ∑ i ∈ Finset.range k, b.share (edge lo binSize i) (edge lo binSize (i + 1)) = b.share lo (edge lo binSize k) := by
  induction k with
  | zero => simp [edge, Bar.share]
  | succ k ih => rw [Finset.sum_range_succ, ih, Bar.share_add_share]

theorem sum_volumes (k : ℕ) :
    ∑ i ∈ Finset.range k, (bars.map fun b => b.share (edge lo binSize i) (edge lo binSize (i + 1))).sum =
      (bars.map fun b => b.share lo (edge lo binSize k)).sum := by
  induction bars with
  | nil => simp
  | cons b bars ih => simp only [List.map_cons, List.sum_cons, Finset.sum_add_distrib, ih, sum_share]

end grid

/-! ## The profile -/

/-- Boundary `k` of the bins: the bins below it are the first `k`. -/
def VolumeProfile.boundary (p : VolumeProfile) (k : ℕ) : ℚ := edge p.priceLow p.binSize k

/-- The bars of the window, bin by bin. -/
def barVolume (bars : List Bar) (lo binSize : ℚ) (i : ℕ) : ℚ :=
  (bars.map fun b => b.share (edge lo binSize i) (edge lo binSize (i + 1))).sum

section build
variable {bars bars' : List Bar} {cfg : VProfileConfig} {p : VolumeProfile} {lo hi : ℚ} {n : ℕ}

theorem edge_last (hn : 0 < n) : edge lo ((hi - lo) / n) n = hi := by
  rw [edge, div_mul_cancel₀ _ (Nat.cast_ne_zero.2 hn.ne')]
  ring

theorem foldl_emptyBins (hn : 0 < n) (hsize : 0 < (hi - lo) / n) :
    bars.foldl (distribute lo ((hi - lo) / n) n) (emptyBins lo hi ((hi - lo) / n) n) =
      gridBins lo ((hi - lo) / n) n (barVolume bars lo ((hi - lo) / n)) := by
  rw [emptyBins_eq (edge_last hn), foldl_distribute hsize]
  simp only [zero_add]
  rfl

theorem VProfileConfig.Valid.binCount_pos (h : cfg.Valid) : 0 < cfg.binCount := lt_of_lt_of_le (by norm_num) h.binCount

/-- What a built profile is: the volumes are those of the bars, on a grid over their window. -/
theorem build_ok (h : build bars cfg = .ok p) : ∃ binSize, 0 < binSize ∧ bars ≠ [] ∧
    edge (window bars).1 binSize cfg.binCount = (window bars).2 ∧
    p = .derive (window bars).1 (window bars).2 binSize
      (gridBins (window bars).1 binSize cfg.binCount (barVolume bars (window bars).1 binSize)) cfg := by
  unfold build at h
  split at h
  · cases h
  rename_i hcfg
  have hvalid := cfg.valid hcfg
  split at h
  · cases h
  rename_i hbars
  dsimp only at h
  split_ifs at h with hrange hnone
  refine ⟨_, not_le.1 hnone, ?_, edge_last hvalid.binCount_pos, ?_⟩
  · rintro rfl
    exact hbars hvalid.minBars
  · rw [← Except.ok.inj h, foldl_emptyBins hvalid.binCount_pos (not_le.1 hnone)]

theorem barVolume_perm (h : bars.Perm bars') (lo binSize : ℚ) : barVolume bars lo binSize = barVolume bars' lo binSize :=
  funext fun _ => (h.map _).sum_eq

/-- **The order of the bars** is of no consequence. -/
theorem build_perm (h : bars.Perm bars') (cfg : VProfileConfig) : build bars cfg = build bars' cfg := by
  unfold build
  rw [h.length_eq, window_perm h]
  split
  · rfl
  rename_i hcfg
  have hcount := (cfg.valid hcfg).binCount_pos
  split
  · rfl
  dsimp only
  split_ifs with hrange hnone
  · rfl
  · rfl
  · rw [foldl_emptyBins hcount (not_le.1 hnone), foldl_emptyBins hcount (not_le.1 hnone), barVolume_perm h]

/-- **No volume is lost or invented**, the bars of a single price apart, which are left out: the bins below a boundary
have what the bars have below it, and all of them the volume of all the bars. -/
theorem build_conserves (hvol : ∀ b ∈ bars, 0 ≤ b.volume) (h : build bars cfg = .ok p) :
    p.totalVolume = (bars.map fun b => if b.low < b.high then b.volume else 0).sum ∧
    (∀ bin ∈ p.bins, 0 ≤ bin.volume) ∧
    (∀ (i : ℕ) bin, p.bins[i]? = some bin → bin.priceLow = p.boundary i ∧ bin.priceHigh = p.boundary (i + 1)) ∧
    (∀ k ≤ p.bins.length, ((p.bins.take k).map (·.volume)).sum =
      (bars.map fun b => if b.low < b.high then b.volume * b.fractionBelow (p.boundary k) else 0).sum) ∧
    ∀ bars', bars'.Perm bars → build bars' cfg = .ok p := by
  obtain ⟨binSize, hsize, hne, hhi, rfl⟩ := build_ok h
  obtain ⟨⟨hlow, -⟩, hhigh, -⟩ := isWindow_window hne
  have hbelow : ∀ k ≤ cfg.binCount, (((gridBins (window bars).1 binSize cfg.binCount
      (barVolume bars (window bars).1 binSize)).take k).map (·.volume)).sum = (bars.map fun b =>
        if b.low < b.high then b.volume * b.fractionBelow (edge (window bars).1 binSize k) else 0).sum := by
    intro k hk
    rw [sum_take_volume, Finset.sum_congr rfl fun i hi =>
      volumeAt_gridBins (lt_of_lt_of_le (Finset.mem_range.1 hi) hk)]
    refine (sum_volumes k).trans (congrArg List.sum (List.map_congr_left fun b hb => ?_))
    exact Bar.share_from (hlow b hb) (hvol b hb) _
  refine ⟨?_, fun bin hbin => ?_, fun i bin hbin => ?_, fun k hk => hbelow k (by simpa using hk), fun bars' hperm =>
    (build_perm hperm cfg).trans h⟩
  · have htotal := hbelow cfg.binCount le_rfl
    rw [List.take_of_length_le length_gridBins.le, hhi] at htotal
    refine htotal.trans (congrArg List.sum (List.map_congr_left fun b hb => ?_))
    split
    · rename_i hrange
      rw [Bar.fractionBelow_of_high_le hrange (hhigh b hb), mul_one]
    · rfl
  · obtain ⟨i, -, rfl⟩ := List.mem_map.1 hbin
    refine List.sum_nonneg fun x hx => ?_
    obtain ⟨b, -, rfl⟩ := List.mem_map.1 hx
    exact Bar.share_nonneg (edge_lt hsize i).le
  · have hin : i < cfg.binCount := by
      have := (List.getElem?_eq_some_iff.1 hbin).1
      simpa using this
    obtain rfl := Option.some.inj ((getElem?_gridBins hin).symm.trans hbin)
    exact ⟨rfl, rfl⟩

end build

def fiveBins : VProfileConfig := { VProfileConfig.defaults with binCount := 5, minBarsForProfile := 2 }

theorem build_conserves_two : ∃ p, build [⟨0, 5, 10⟩, ⟨1, 3, 4⟩] fiveBins = .ok p ∧ p.totalVolume = 14 ∧
    build [⟨1, 3, 4⟩, ⟨0, 5, 10⟩] fiveBins = .ok p := by
  have hbuilt : (build [⟨0, 5, 10⟩, ⟨1, 3, 4⟩] fiveBins).toOption.isSome := by decide +kernel
  cases hp : build [⟨0, 5, 10⟩, ⟨1, 3, 4⟩] fiveBins with
  | error err => rw [hp] at hbuilt; cases hbuilt
  | ok p =>
    obtain ⟨htotal, -, -, -, hperm⟩ := build_conserves (by decide +kernel) hp
    exact ⟨p, rfl, htotal.trans (by decide +kernel), hperm _ (List.Perm.swap _ _ _)⟩

/-- The volume of the bar at 2 is lost. -/
theorem build_loses_single_price : ∃ p, build [⟨0, 5, 10⟩, ⟨2, 2, 3⟩] fiveBins = .ok p ∧
    p.totalVolume ≠ (([⟨0, 5, 10⟩, ⟨2, 2, 3⟩] : List Bar).map (·.volume)).sum := by
  have hbuilt : (build [⟨0, 5, 10⟩, ⟨2, 2, 3⟩] fiveBins).toOption.map (·.totalVolume) = some 10 := by decide +kernel
  cases hp : build [⟨0, 5, 10⟩, ⟨2, 2, 3⟩] fiveBins with
  | error err => rw [hp] at hbuilt; cases hbuilt
  | ok p =>
    rw [hp] at hbuilt
    have htotal : p.totalVolume = 10 := Option.some.inj hbuilt
    refine ⟨p, rfl, ?_⟩
    rw [htotal]
    decide +kernel

end Qtss.VProfile
