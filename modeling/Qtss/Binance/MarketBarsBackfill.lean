import Mathlib.Data.List.DropRight
import Qtss.Execution.DryLedger
import Qtss.Lib.Keyed
/-
# The paging of a backfill (`qtss-binance/src/market_bars_backfill.rs`)

| here | there |
| --- | --- |
| `SeriesKey`, `MarketBars` | `market_bars` and the key of a series; the open times are in milliseconds |
| `KlineBar`        | a row of klines.rs:12 with its decimals parsed |
| `Venue.klines`    | `fapi_klines`, `spot_klines` without a start: the newest bars up to the end time, the oldest first |
| `backfill`        | `backfill_binance_public_klines` (:40) where every request and every upsert succeeds |

A page ends where the one before it began, so that a backfill with an end time stores nothing after it
(`backfill_frame`).
-/

namespace Qtss.Binance
open Execution.Dry (trim)
open Keyed

structure SeriesKey where
  exchange : String
  segment : String
  symbol : String
  interval : String
deriving DecidableEq

structure MarketBar where
  openPrice : ℚ
  high : ℚ
  low : ℚ
  close : ℚ
  volume : ℚ
  quoteVolume : Option ℚ
  tradeCount : Option ℤ
deriving DecidableEq

abbrev MarketBars := HashMap (SeriesKey × ℤ) MarketBar

structure KlineBar where
  openTime : ℕ
  bar : MarketBar

/-- What the venue has of each segment, symbol and interval. -/
structure Venue where
  series : String → String → String → List KlineBar
  ascending : ∀ segment symbol interval, (series segment symbol interval).Pairwise (·.openTime < ·.openTime)

def Venue.klines (v : Venue) (segment symbol interval : String) (endTime : Option ℕ) (limit : ℕ) : List KlineBar :=
  ((v.series segment symbol interval).filter fun k => endTime.all (k.openTime ≤ ·)).rtake limit

structure BackfillResult where
  upserted : ℕ
  pages : ℕ
  oldestMs : Option ℕ
  newestMs : Option ℕ
  reachedListing : Bool

/-- The state of the loop. -/
structure Cursor where
  bars : MarketBars
  upserted : ℕ
  pages : ℕ
  endTime : Option ℕ
  oldestMs : Option ℕ
  newestMs : Option ℕ

def Cursor.result (c : Cursor) (reachedListing : Bool) : MarketBars × BackfillResult :=
  (c.bars, ⟨c.upserted, c.pages, c.oldestMs, c.newestMs, reachedListing⟩)

def upsertMarketBar (key : SeriesKey) (bars : MarketBars) (k : KlineBar) : MarketBars :=
  bars.insert (key, (k.openTime : ℤ)) k.bar

/-- One page, and the cursor after it. The rows are written until the target is reached. -/
def Cursor.page (c : Cursor) (key : SeriesKey) (target : ℕ) (klines : List KlineBar) : Cursor :=
  let batchOldest := ((klines.map (·.openTime)).min?).getD 0
  let batchNewest := ((klines.map (·.openTime)).max?).getD 0
  let rows := klines.take (target - c.upserted)
  { bars := rows.foldl (upsertMarketBar key) c.bars
    upserted := c.upserted + rows.length
    pages := c.pages
    endTime := some (batchOldest - 1)
    oldestMs := some (c.oldestMs.elim batchOldest (min · batchOldest))
    newestMs := some (c.newestMs.elim batchNewest (max · batchNewest)) }

/-- `while upserted < target && pages < max_pages`, with the pages that are left. -/
def backfillLoop (klines : Option ℕ → ℕ → List KlineBar) (key : SeriesKey) (target : ℕ) :
    ℕ → Cursor → MarketBars × BackfillResult
  | 0, c => c.result false
  | left + 1, c =>
    if target ≤ c.upserted then c.result false
    else
      let batchLim := min ((target - c.upserted) % 2 ^ 32) 1000
      let page := klines c.endTime batchLim
      let c := { c with pages := c.pages + 1 }
      if page.isEmpty then c.result true
      else
        let next := c.page key target page
        if page.length < batchLim then next.result true else backfillLoop klines key target left next

def segDb (segmentUi : String) : String :=
  match trim segmentUi with
  | "future" | "futures" | "usdt_futures" | "fapi" => "futures"
  | _ => "spot"

variable (toUppercase : String → String)

def backfill (v : Venue) (bars : MarketBars) (symbolUpper interval segmentUi : String) (targetBars : ℤ)
    (resumeEndMs : Option ℕ) : Except String (MarketBars × BackfillResult) :=
  let sym := toUppercase (trim symbolUpper)
  let interval := trim interval
  if sym.isEmpty then .error "symbol required"
  else if interval.isEmpty then .error "interval required"
  else
    let segment := segDb segmentUi
    let unlimited := targetBars = 0
    let target := if unlimited then 2 ^ 63 - 1 else (max 1 (min targetBars 50000)).toNat
    let maxPages := if unlimited then 5000 else 60
    .ok (backfillLoop (v.klines segment sym interval) ⟨"binance", segment, sym, interval⟩ target maxPages
      ⟨bars, 0, 0, resumeEndMs, none, none⟩)

/-! ## What a backfill leaves alone -/

variable {toUppercase} {v : Venue} {bars : MarketBars} {key : SeriesKey} {target limit : ℕ} {endMs : ℕ}
  {klines : Option ℕ → ℕ → List KlineBar} {c : Cursor} {page : List KlineBar}

theorem mem_klines {segment symbol interval : String} {endTime : Option ℕ} {k : KlineBar}
    (h : k ∈ v.klines segment symbol interval endTime limit) : ∀ e ∈ endTime, k.openTime ≤ e := by
  have hfilter := List.mem_of_mem_drop h
  rw [List.mem_filter] at hfilter
  rintro e ⟨⟩
  simpa using hfilter.2

theorem batchOldest_le (h : ∀ k ∈ page, k.openTime ≤ endMs) (hpage : page ≠ []) :
    ((page.map (·.openTime)).min?).getD 0 ≤ endMs := by
  cases hmin : (page.map (·.openTime)).min? with
  | none => simp [hpage] at hmin
  | some m =>
    obtain ⟨k, hk, rfl⟩ := List.mem_map.1 (List.min?_mem hmin)
    exact h k hk

section invariant
variable {J : MarketBars → Prop} (hJ : ∀ bars, ∀ k : KlineBar, k.openTime ≤ endMs → J bars → J (upsertMarketBar key bars k))
include hJ

theorem upserts_invariant (h : ∀ k ∈ page, k.openTime ≤ endMs) (hbars : J bars) :
    J (page.foldl (upsertMarketBar key) bars) := by
  induction page generalizing bars with
  | nil => exact hbars
  | cons k page ih =>
    obtain ⟨hk, hpage⟩ := List.forall_mem_cons.1 h
    exact ih hpage (hJ bars k hk hbars)

/-- **Every page** is up to the end time, and so is the next end time. -/
theorem backfillLoop_invariant (hklines : ∀ e n, ∀ k ∈ klines (some e) n, k.openTime ≤ e) (left : ℕ) (endTime : ℕ)
    (hc : c.endTime = some endTime) (hend : endTime ≤ endMs) (hbars : J c.bars) :
    J (backfillLoop klines key target left c).1 := by
  induction left generalizing c endTime with
  | zero => exact hbars
  | succ left ih =>
    rw [backfillLoop]
    split
    · exact hbars
    · rw [hc]
      simp only
      have hpage : ∀ k ∈ klines (some endTime) (min ((target - c.upserted) % 2 ^ 32) 1000), k.openTime ≤ endMs :=
        fun k hk => (hklines _ _ k hk).trans hend
      generalize klines (some endTime) (min ((target - c.upserted) % 2 ^ 32) 1000) = page at hpage ⊢
      split
      · exact hbars
      · rename_i hempty
        have hnonempty : page ≠ [] := fun h => hempty (by rw [h]; rfl)
        have hrows : J (({ c with pages := c.pages + 1 }.page key target page).bars) :=
          upserts_invariant hJ (fun k hk => hpage k (List.mem_of_mem_take hk)) hbars
        split
        · exact hrows
        · refine ih _ rfl ?_ hrows
          exact (Nat.sub_le _ _).trans (batchOldest_le hpage hnonempty)

end invariant

/-- What every upsert of a row up to the end time keeps holds after the backfill. -/
theorem backfill_invariant {J : MarketBars → Prop} {symbolUpper interval segmentUi : String} {targetBars : ℤ}
    {r : MarketBars × BackfillResult}
    (hJ : ∀ key bars, ∀ k : KlineBar, k.openTime ≤ endMs → J bars → J (upsertMarketBar key bars k)) (hbars : J bars)
    (h : backfill toUppercase v bars symbolUpper interval segmentUi targetBars (some endMs) = .ok r) : J r.1 := by
  unfold backfill at h
  simp only at h
  split at h
  · cases h
  · split at h
    · cases h
    · obtain rfl := Except.ok.inj h
      exact backfillLoop_invariant (c := ⟨bars, 0, 0, some endMs, none, none⟩) (hJ _)
        (fun e n k hk => mem_klines hk e rfl) _ endMs rfl le_rfl hbars

section backfill
variable {symbolUpper interval segmentUi : String} {targetBars : ℤ} {r : MarketBars × BackfillResult}
  (h : backfill toUppercase v bars symbolUpper interval segmentUi targetBars (some endMs) = .ok r)
include h

/-- **A backfill from an end time** writes nothing after it. -/
theorem backfill_frame (key : SeriesKey) (t : ℤ) (ht : (endMs : ℤ) < t) :
    r.1.lookup (key, t) = bars.lookup (key, t) := by
  refine backfill_invariant (J := fun bars' => bars'.lookup (key, t) = bars.lookup (key, t)) ?_ rfl h
  intro key' bars' k hk hbars'
  have hne : (key, t) ≠ (key', (k.openTime : ℤ)) := by
    rintro ⟨⟩
    omega
  rw [upsertMarketBar, lookup_insert_eq, if_neg hne, hbars']

/-- It deletes nothing. -/
theorem backfill_keeps (i : SeriesKey × ℤ) (hi : (bars.lookup i).isSome) : (r.1.lookup i).isSome := by
  refine backfill_invariant (J := fun bars' => (bars'.lookup i).isSome) ?_ hi h
  intro key' bars' k _ hbars'
  rw [upsertMarketBar, lookup_insert_eq]
  split
  · rfl
  · exact hbars'

end backfill

end Qtss.Binance
