import Mathlib.Data.List.DropRight
import Qtss.Engine.Detections
/-
# The opening range breakout writer (`qtss-engine/src/writers/orb.rs`)

| here | there |
| --- | --- |
| `TradingSession`, `classifyCrypto` | `qtss-regime/src/session.rs`: the primary session of an hour |
| `wilderAtr`, `avgVolume` | orb.rs:202, :228 |
| `breakout`, `orbDetection` | orb.rs:140-183: the bars that break out, and the row of the first of them |
| `orbRowAt`, `orbRows` | `process_symbol` (:81): the row of the session that opens at a bar, and all rows of a tick |
-/

namespace Qtss.Engine

/-! ## Sessions and averages -/

inductive TradingSession where
  | asia | london | newYork | off
deriving DecidableEq, Repr

def TradingSession.asStr : TradingSession → String
  | .asia => "asia"
  | .london => "london"
  | .newYork => "new_york"
  | .off => "off"

def classifyCrypto (t : DateTime) : TradingSession :=
  let h := t / 3600 % 24
  if 13 ≤ h ∧ h ≤ 15 then .london
  else if 0 ≤ h ∧ h ≤ 7 then .asia
  else if 8 ≤ h ∧ h ≤ 12 then .london
  else if 16 ≤ h ∧ h ≤ 21 then .newYork
  else .off

/-- The loop over the bars from the `i`th on, after `prev`. -/
def wilderFrom (period : ℕ) : ℕ → ℚ → ℚ → MarketBarRow → List MarketBarRow → List ℚ
  | _, _, _, _, [] => []
  | i, sumTr, prevAtr, prev, bar :: rest =>
    let tr := max (max (bar.high - bar.low) |bar.high - prev.close|) |bar.low - prev.close|
    if i < period then 0 :: wilderFrom period (i + 1) (sumTr + tr) prevAtr bar rest
    else
      let atr := if i = period then (sumTr + tr) / period else (prevAtr * (period - 1) + tr) / period
      atr :: wilderFrom period (i + 1) (sumTr + tr) atr bar rest

def wilderAtr (rows : List MarketBarRow) (period : ℕ) : List ℚ :=
  match rows with
  | first :: second :: rest =>
    if period = 0 then rows.map fun _ => 0 else 0 :: wilderFrom period 1 0 0 first (second :: rest)
  | _ => rows.map fun _ => 0

def avgVolume (rows : List MarketBarRow) (window : ℕ) : ℚ :=
  let take := min window rows.length
  if rows.length = 0 then 0 else ((rows.rtake take).map (·.volume)).sum / take

/-! ## Breakouts -/

structure OrbConfig where
  barsPerTick : ℕ
  orBars : ℕ
  confirmLookback : ℕ
  breakoutAtrMult : ℚ
  volumeSpikeMult : ℚ
  enabledSessions : List TradingSession

structure OpeningRange where
  session : TradingSession
  startBar : ℕ
  startTime : DateTime
  high : ℚ
  low : ℚ
  /-- `atr_here`. -/
  atr : ℚ

inductive Breakout where
  | bull | bear
deriving DecidableEq

/-- Which way a bar breaks out, if it does. -/
def breakout (cfg : OrbConfig) (r : OpeningRange) (bar : MarketBarRow) : Option Breakout :=
  let minMagnitude := r.atr * cfg.breakoutAtrMult
  if bar.close > r.high + minMagnitude then some .bull
  else if bar.close < r.low - minMagnitude then some .bear
  else none

/-- The row of an opening range that the `j`th bar breaks. -/
def orbDetection (rfc3339 : DateTime → String) (cfg : OrbConfig) (series : Series) (avgVol : ℚ) (r : OpeningRange)
    (j : ℕ) (bar : MarketBarRow) (side : Breakout) : DetectionKey × Detection :=
  let volumeConfirmed := bar.volume ≥ avgVol * cfg.volumeSpikeMult
  ({ series := series, slot := 0, patternFamily := "orb"
     subkind := "orb_" ++ r.session.asStr ++ "_" ++ (match side with | .bull => "bull" | .bear => "bear")
     startTime := r.startTime, endTime := bar.openTime, mode := "live" },
   { direction := match side with | .bull => 1 | .bear => -1
     startBar := r.startBar, endBar := j
     anchors := .arr [labelled rfc3339 "OR high" r.startBar r.high r.startTime,
       labelled rfc3339 "OR low" r.startBar r.low r.startTime, labelled rfc3339 "Break" j bar.close bar.openTime]
     invalidated := false
     rawMeta := .obj [("or_high", .float r.high), ("or_low", .float r.low),
       ("trigger_price", .float (match side with | .bull => r.high | .bear => r.low)),
       ("breakout_close", .float bar.close), ("session", .str r.session.asStr), ("or_bars", .int cfg.orBars),
       ("atr", .float r.atr), ("volume_confirmed", .bool volumeConfirmed),
       ("score", .float (if volumeConfirmed then 3 / 4 else 55 / 100))] })

/-- The range of the session that opens at the `i`th bar, if one does. -/
def openingRange (cfg : OrbConfig) (chrono : List MarketBarRow) (i : ℕ) : Option OpeningRange := do
  let bar ← chrono[i]?
  let prev ← chrono[i - 1]?
  let session := classifyCrypto bar.openTime
  if session = classifyCrypto prev.openTime ∨ session ∉ cfg.enabledSessions ∨ chrono.length ≤ i + cfg.orBars then none
  else
    let orWindow := (chrono.drop i).take cfg.orBars
    let high ← (orWindow.map (·.high)).max?
    let low ← (orWindow.map (·.low)).min?
    let atr := max ((wilderAtr chrono 14)[i + cfg.orBars]?.getD 0) (1 / 10 ^ 9)
    if high ≤ low then none else some ⟨session, i, bar.openTime, high, low, atr⟩

/-- "first confirmed breakout only". -/
def orbRowAt (rfc3339 : DateTime → String) (cfg : OrbConfig) (series : Series) (chrono : List MarketBarRow)
    (i : ℕ) : Option (DetectionKey × Detection) := do
  let r ← openingRange cfg chrono i
  let scanStart := i + cfg.orBars
  let scanEnd := min (scanStart + cfg.confirmLookback) chrono.length
  (List.range' scanStart (scanEnd - scanStart)).findSome? fun j => do
    let bar ← chrono[j]?
    let side ← breakout cfg r bar
    return orbDetection rfc3339 cfg series (avgVolume chrono 20) r j bar side

/-- orb.rs:81. -/
def orbRows (rfc3339 : DateTime → String) (cfg : OrbConfig) (series : Series) (bars : BarSeries) :
    List (DetectionKey × Detection) :=
  let chrono := bars.bars.rtake cfg.barsPerTick
  if chrono.length < cfg.orBars + cfg.confirmLookback + 1 then []
  else (List.range' 1 (chrono.length - 1)).filterMap (orbRowAt rfc3339 cfg series chrono)

/-! ## What is written -/

variable {rfc3339 : DateTime → String} {cfg : OrbConfig} {series : Series} {bars : BarSeries}
  {chrono : List MarketBarRow} {i : ℕ} {row : DetectionKey × Detection}

theorem orbRowAt_eq_some (h : orbRowAt rfc3339 cfg series chrono i = some row) :
    ∃ avgVol r j bar side, chrono[i]?.map (·.openTime) = some r.startTime ∧ chrono[j]? = some bar ∧ i + cfg.orBars ≤ j ∧
      0 < cfg.orBars ∧ breakout cfg r bar = some side ∧
      row = orbDetection rfc3339 cfg series avgVol r j bar side := by
  unfold orbRowAt at h
  simp only [Option.bind_eq_bind, Option.bind_eq_some_iff] at h
  obtain ⟨r, hr, h⟩ := h
  obtain ⟨j, hj, h⟩ := List.exists_of_findSome?_eq_some h
  simp only [Option.pure_def, Option.bind_eq_some_iff, Option.some.injEq] at h
  obtain ⟨bar, hbar, side, hside, rfl⟩ := h
  refine ⟨_, r, j, bar, side, ?_, hbar, (List.mem_range'_1.1 hj).1, ?_, hside, rfl⟩
  all_goals
    unfold openingRange at hr
    simp only [Option.bind_eq_bind, Option.bind_eq_some_iff] at hr
    obtain ⟨b, hb, prev, -, hr⟩ := hr
    split at hr
    · cases hr
    simp only [Option.bind_eq_some_iff] at hr
    obtain ⟨high, hhigh, low, -, hr⟩ := hr
    split at hr
    · cases hr
    obtain rfl := Option.some.inj hr
  · rw [hb]
    rfl
  · by_contra hzero
    rw [Nat.eq_zero_of_not_pos hzero, List.take_zero] at hhigh
    cases hhigh

/-- A row is of a session that opens before the bar that breaks its range. -/
theorem mem_orbRows (h : row ∈ orbRows rfc3339 cfg series bars) :
    ∃ avgVol r j bar side, row = orbDetection rfc3339 cfg series avgVol r j bar side ∧ r.startTime < bar.openTime := by
  unfold orbRows at h
  simp only at h
  split at h
  next => cases h
  next =>
    obtain ⟨i, -, hrow⟩ := List.mem_filterMap.1 h
    obtain ⟨avgVol, r, j, bar, side, hstart, hbar, hij, hpos, -, rfl⟩ := orbRowAt_eq_some hrow
    refine ⟨avgVol, r, j, bar, side, rfl, ?_⟩
    obtain ⟨first, hfirst, hr⟩ := Option.map_eq_some_iff.1 hstart
    obtain ⟨hi, rfl⟩ := List.getElem?_eq_some_iff.1 hfirst
    obtain ⟨hj, rfl⟩ := List.getElem?_eq_some_iff.1 hbar
    have hasc : (bars.bars.rtake cfg.barsPerTick).Pairwise (·.openTime < ·.openTime) := by
      rw [List.rtake]
      exact bars.ascending.sublist (List.drop_sublist _ _)
    rw [← hr]
    exact List.pairwise_iff_getElem.1 hasc i j hi hj (by omega)

end Qtss.Engine
