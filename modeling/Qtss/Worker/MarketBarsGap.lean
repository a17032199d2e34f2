import Qtss.Binance.MarketBarsBackfill
import Qtss.Lib.Fallible
import Qtss.Lib.Runs
/-
# The safety net of the bars (`qtss-worker/src/market_bars_gap_loop.rs`)

| here | there |
| --- | --- |
| `intervalSeconds`, `measureGap` | `interval_seconds` (:38), `measure_gap` (:221) |
| `attemptBackfill` | `attempt_backfill` (:278), where every request and every upsert succeeds |
| `checkSymbol`     | one symbol of `run_tick` (:154) |

The bars that are expected are counted between the oldest and the newest (:262), and fetched "from the oldest known bar's
millis so we go BACKWARDS into the gap" (:288): from the oldest bar on there is no gap that way. What is missing between
the two stays missing (`attemptBackfill_fills_none`), on every tick again (`hole_stays`).
-/

namespace Qtss.Worker.MarketBarsGap
open Binance Keyed Runs
open Execution.Dry (trim)

/-- An enabled row of `engine_symbols`. -/
abbrev LiveSymbol := SeriesKey

def intervalSeconds (iv : String) : Option ℤ :=
  match trim iv with
  | "1m" => some 60
  | "3m" => some 180
  | "5m" => some 300
  | "15m" => some 900
  | "30m" => some 1800
  | "1h" | "60m" => some 3600
  | "2h" => some 7200
  | "4h" => some 14400
  | "6h" => some 21600
  | "8h" => some 28800
  | "12h" => some 43200
  | "1d" | "1D" => some 86400
  | "3d" | "3D" => some 259200
  | "1w" | "1W" => some 604800
  | "1M" => some 2592000
  | _ => none

structure GapReport where
  actualBars : ℤ
  expectedBars : ℤ
  oldest : Option ℤ
  newest : Option ℤ

/-- The open times of a series. -/
def storedTimes (bars : MarketBars) (sym : LiveSymbol) : List ℤ := (bars.keys.filter (·.1 = sym)).map (·.2)

/-- `progressBars` is the `bar_count` of `backfill_progress`, 0 where there is none. -/
def measureGap (bars : MarketBars) (sym : LiveSymbol) (progressBars : ℤ) : GapReport :=
  let times := storedTimes bars sym
  let spanBars :=
    match intervalSeconds sym.interval, times.min?, times.max? with
    | some sec, some o, some n => if sec > 0 then (max ((n - o).tdiv 1000) 0).tdiv sec + 1 else 0
    | _, _, _ => 0
  ⟨times.length, max progressBars spanBars, times.min?, times.max?⟩

def GapReport.underCovered (r : GapReport) (minPct : ℚ) : Bool :=
  r.expectedBars ≠ 0 ∧ (r.actualBars / r.expectedBars : ℚ) < minPct

/-- A number that is cast to `i64`. -/
def wrapI64 (x : ℤ) : ℤ := x.bmod (2 ^ 64)

variable (toUppercase : String → String)

def attemptBackfill (v : Venue) (bars : MarketBars) (sym : LiveSymbol) (report : GapReport) (pagesPerRun : ℕ) :
    Except String (MarketBars × BackfillResult) :=
  let target := max 1 (min (wrapI64 (wrapI64 pagesPerRun * 1000)) 50000)
  let resumeEndMs := report.oldest.map fun t => (max t 0).toNat
  backfill toUppercase v bars sym.symbol sym.interval sym.segment target resumeEndMs

/-- What a tick reads: the venue as it is, `min_completeness_pct`, `pages_per_run`, and the count of the progress. -/
structure Tick where
  venue : Venue
  minPct : ℚ
  pagesPerRun : ℕ
  progressBars : ℤ

def checkSymbol (sym : LiveSymbol) (bars : MarketBars) (i : Tick) : MarketBars :=
  let report := measureGap bars sym i.progressBars
  if report.underCovered i.minPct then
    match attemptBackfill toUppercase i.venue bars sym report i.pagesPerRun with
    | .ok (bars', _) => bars'
    | .error _ => bars
  else bars

/-! ## What is asked of a backfill -/

/-- The open times of the series at the venue. -/
def venueTimes (v : Venue) (sym : LiveSymbol) : List ℤ :=
  (v.series (segDb sym.segment) (toUppercase (trim sym.symbol)) (trim sym.interval)).map fun k => (k.openTime : ℤ)

/-- The venue has a bar that is not stored, between the oldest and the newest one that are. -/
def Missing (v : Venue) (bars : MarketBars) (sym : LiveSymbol) (t : ℤ) : Prop :=
  t ∈ venueTimes toUppercase v sym ∧ bars.lookup (sym, t) = none ∧
    (∃ o ∈ (storedTimes bars sym).min?, o < t) ∧ ∃ n ∈ (storedTimes bars sym).max?, t < n

/-- A proper part of the series of the venue, with too few bars. -/
structure Holed (v : Venue) (bars : MarketBars) (sym : LiveSymbol) (progressBars : ℤ) (minPct : ℚ) : Prop where
  stored : ∀ t ∈ storedTimes bars sym, t ∈ venueTimes toUppercase v sym
  missing : ∃ t, Missing toUppercase v bars sym t
  underCovered : (measureGap bars sym progressBars).underCovered minPct

/-- One of the missing bars is stored. -/
def FillsOne (v : Venue) (bars bars' : MarketBars) (sym : LiveSymbol) : Prop :=
  ∃ t, Missing toUppercase v bars sym t ∧ (bars'.lookup (sym, t)).isSome

variable {toUppercase} {v : Venue} {bars : MarketBars} {sym : LiveSymbol} {report : GapReport} {t o progressBars : ℤ}
  {pagesPerRun : ℕ} {r : MarketBars × BackfillResult}

/-! ## Nothing after the oldest bar -/

theorem mem_storedTimes : t ∈ storedTimes bars sym ↔ (bars.lookup (sym, t)).isSome := by
  rw [AList.lookup_isSome, AList.mem_keys, storedTimes, List.mem_map]
  constructor
  · rintro ⟨⟨key, u⟩, hmem, rfl⟩
    obtain ⟨hkey, heq⟩ := List.mem_filter.1 hmem
    obtain rfl : key = sym := by simpa using heq
    exact hkey
  · exact fun h => ⟨(sym, t), List.mem_filter.2 ⟨h, by simp⟩, rfl⟩

theorem attemptBackfill_frame (holdest : report.oldest = some o)
    (h : attemptBackfill toUppercase v bars sym report pagesPerRun = .ok r) (ht : max o 0 < t) (key : SeriesKey) :
    r.1.lookup (key, t) = bars.lookup (key, t) := by
  unfold attemptBackfill at h
  rw [holdest] at h
  refine backfill_frame h key t ?_
  simp only
  omega

theorem attemptBackfill_keeps (holdest : report.oldest = some o)
    (h : attemptBackfill toUppercase v bars sym report pagesPerRun = .ok r) (hstored : t ∈ storedTimes bars sym) :
    t ∈ storedTimes r.1 sym := by
  unfold attemptBackfill at h
  rw [holdest] at h
  exact mem_storedTimes.2 (backfill_keeps h _ (mem_storedTimes.1 hstored))

/-- **A hole stays**: however much of the venue a backfill brings, none of it lies in a hole of the series. -/
theorem attemptBackfill_fills_none (v : Venue) (bars : MarketBars) (sym : LiveSymbol) (progressBars : ℤ)
    (minPct : ℚ) (pagesPerRun : ℕ) (r : MarketBars × BackfillResult)
    (hholed : Holed toUppercase v bars sym progressBars minPct)
    (h : attemptBackfill toUppercase v bars sym (measureGap bars sym progressBars) pagesPerRun = .ok r) :
    ¬ FillsOne toUppercase v bars r.1 sym := by
  rintro ⟨t, ⟨-, hnone, ⟨o, ho, hot⟩, -⟩, hsome⟩
  have hpos : 0 ≤ o := by
    have hmem := hholed.stored o (List.min?_mem ho)
    obtain ⟨k, -, hk⟩ := List.mem_map.1 hmem
    exact hk ▸ Int.natCast_nonneg _
  rw [attemptBackfill_frame ho h (max_lt hot (hpos.trans_lt hot)), hnone] at hsome
  cases hsome

/-! ## Tick after tick -/

/-- A bar is not there, and an older one is. -/
def Hole (sym : LiveSymbol) (o t : ℤ) (bars : MarketBars) : Prop :=
  o ∈ storedTimes bars sym ∧ bars.lookup (sym, t) = none

theorem hole_step (ho : 0 ≤ o) (hot : o < t) (h : Hole sym o t bars) (i : Tick) :
    Hole sym o t (checkSymbol toUppercase sym bars i) := by
  unfold checkSymbol
  simp only
  split
  · split
    next bars' result hok =>
      obtain ⟨hstored, hnone⟩ := h
      obtain ⟨first, hfirst⟩ : ∃ first, (storedTimes bars sym).min? = some first :=
        Option.ne_none_iff_exists'.1 fun hmin => by simp [List.min?_eq_none_iff.1 hmin] at hstored
      have hle : first ≤ o := (List.min?_eq_some_iff.1 hfirst).2 o hstored
      refine ⟨attemptBackfill_keeps hfirst hok hstored, ?_⟩
      rw [attemptBackfill_frame hfirst hok (max_lt (hle.trans_lt hot) (ho.trans_lt hot)), hnone]
    next => exact h
  · exact h

/-- Over any number of ticks, whatever the venue has by then. -/
theorem hole_stays (ho : 0 ≤ o) (hot : o < t) (h : Hole sym o t bars) (ticks : List Tick) :
    AllStates (checkSymbol toUppercase sym) (Hole sym o t) bars ticks := by
  have hstep : ∀ bars i, Hole sym o t bars → Hole sym o t (checkSymbol toUppercase sym bars i) :=
    fun _ i hbars => hole_step ho hot hbars i
  exact allStates_of_step hstep h ticks

/-! ## Three days of four -/

def day (n : ℕ) : ℕ := 86400000 * n

def dailyBar (n : ℕ) : KlineBar := ⟨day (n + 1), ⟨10, 11, 9, 10, 5, none, some 7⟩⟩

/-- Four daily bars of one symbol. -/
def fourDays : Venue where
  series segment symbol interval :=
    if segment = "futures" ∧ symbol = "BTCUSDT" ∧ interval = "1d" then (List.range 4).map dailyBar else []
  ascending segment symbol interval := by
    split
    · refine List.pairwise_map.2 (List.pairwise_lt_range.imp fun {m n} hlt => ?_)
      exact Nat.mul_lt_mul_of_pos_left (Nat.succ_lt_succ hlt) (by norm_num)
    · exact List.Pairwise.nil

def btcDaily : LiveSymbol := ⟨"binance", "futures", "BTCUSDT", "1d"⟩

/-- All but the third. -/
def threeDays : MarketBars :=
  ([0, 1, 3] : List ℕ).foldl (fun m n => upsertMarketBar btcDaily m (dailyBar n)) ∅

theorem threeDays_holed : Holed id fourDays threeDays btcDaily 0 (95 / 100) where
  stored := by decide +kernel
  missing := ⟨day 3, by decide +kernel, by decide +kernel, by decide +kernel, by decide +kernel⟩
  underCovered := by decide +kernel

/-- The request ends at the first day, and brings that one again. -/
def threeDaysBackfill : Except String (MarketBars × BackfillResult) :=
  attemptBackfill id fourDays threeDays btcDaily (measureGap threeDays btcDaily 0) 1

theorem attemptBackfill_fills_none_threeDays :
    ∃ r, threeDaysBackfill = .ok r ∧ ¬ FillsOne id fourDays threeDays r.1 btcDaily := by
  obtain ⟨r, hr⟩ := Fallible.isOk_iff.1 (show threeDaysBackfill.isOk by decide +kernel)
  exact ⟨r, hr, attemptBackfill_fills_none fourDays threeDays btcDaily 0 (95 / 100) 1 r threeDays_holed hr⟩

theorem third_day_stays_missing : ∃ r, threeDaysBackfill = .ok r ∧ r.2.upserted = 1 ∧
    Holed id fourDays threeDays btcDaily 0 (95 / 100) ∧ ¬ FillsOne id fourDays threeDays r.1 btcDaily := by
  obtain ⟨r, hr⟩ := Fallible.isOk_iff.1 (show threeDaysBackfill.isOk by decide +kernel)
  have hall : threeDaysBackfill.toOption.all fun r => r.2.upserted = 1 ∧
      ∀ t ∈ venueTimes id fourDays btcDaily, r.1.lookup (btcDaily, t) = threeDays.lookup (btcDaily, t) := by
    decide +kernel
  rw [hr] at hall
  obtain ⟨hone, hsame⟩ := of_decide_eq_true hall
  refine ⟨r, hr, hone, threeDays_holed, ?_⟩
  rintro ⟨t, ⟨hvenue, hnone, -, -⟩, hsome⟩
  rw [hsame t hvenue, hnone] at hsome
  cases hsome

end Qtss.Worker.MarketBarsGap
