import Mathlib.Algebra.Order.Field.Rat
import Mathlib.Tactic.Linarith
import Qtss.Domain
import Qtss.Lib.Runs
/-
# Poz Koruma, the profit ratchet (`qtss-notify/src/poz_koruma.rs`)

| here | there |
| --- | --- |
| `SetupDirection`     | `card/builder.rs:22` |
| `Tighter`            | `>` for a long, `<` for a short |
| `RatchetInput`, `RatchetStep`, `RatchetOutcome` | poz_koruma.rs:46, :64, :73 |
| `evaluate`           | :87 |
| `isNewRatchetDay`, `dailyGainPct`, `computeRatchetedSl` | :134, :152, :165 |
| `shiftedSl`          | `shifted` (:176-180) |
| `applyOutcome`       | what `run_poz_koruma` stores (`setup_watcher.rs:338-363`) |

Prices and percentages are exact rationals.

"The reference price always advances so a sideways-after-gain day doesn't re-claim the same move". A
losing day moves the reference down and leaves the cumulative gain alone, so the way back up is
claimed a second time, and the stop ends up beyond the price (`rebound_reclaims`).
-/

namespace Qtss.Notify
open Runs

inductive SetupDirection where
  | long | short
deriving DecidableEq, Repr

/-- `b` is a tighter stop than `a`. -/
def Tighter : SetupDirection → ℚ → ℚ → Prop
  | .long, a, b => a < b
  | .short, a, b => b < a

/-- The stop is on the protective side of the price. -/
def Protects : SetupDirection → ℚ → ℚ → Prop
  | .long, sl, price => sl ≤ price
  | .short, sl, price => price ≤ sl

/-- The tighter of two stops. -/
def tighterOf : SetupDirection → ℚ → ℚ → ℚ
  | .long, a, b => max a b
  | .short, a, b => min a b

/-- How far a price is from the entry, in the position's favour. -/
def favourableMove : SetupDirection → ℚ → ℚ → ℚ
  | .long, entry, price => price - entry
  | .short, entry, price => entry - price

instance (d : SetupDirection) (a b : ℚ) : Decidable (Tighter d a b) := by
  cases d <;> unfold Tighter <;> infer_instance

instance (d : SetupDirection) (a b : ℚ) : Decidable (Protects d a b) := by
  cases d <;> unfold Protects <;> infer_instance

structure PozKorumaConfig where
  enabled : Bool
  eodHourUtc : ℕ
  minGainPct : ℚ
  bufferPct : ℚ
deriving DecidableEq

def PozKorumaConfig.fallback : PozKorumaConfig := ⟨true, 0, 1 / 2, 1 / 20⟩

structure RatchetInput where
  direction : SetupDirection
  entryPrice : ℚ
  currentPrice : ℚ
  originalSl : ℚ
  currentSl : ℚ
  referencePrice : Option ℚ
  cumulativePct : ℚ
  lastUpdateAt : Option DateTime
deriving DecidableEq

structure RatchetStep where
  newSl : ℚ
  newReferencePrice : ℚ
  newCumulativePct : ℚ
  gainedPct : ℚ
  at_ : DateTime
deriving DecidableEq

inductive RatchetOutcome where
  | noChange
  | ratcheted (step : RatchetStep)
  | referenceOnly (newReferencePrice gainedPct : ℚ) (at_ : DateTime)
deriving DecidableEq

/-- The day of `t`, when a day begins at `hour`. -/
def dayBucket (t : DateTime) (hour : ℕ) : ℤ := (t - hour * 3600) / 86400

/-- poz_koruma.rs:134. -/
def isNewRatchetDay (last : Option DateTime) (now : DateTime) (eodHourUtc : ℕ) : Bool :=
  match last with
  | none => true
  | some last => decide (dayBucket now eodHourUtc > dayBucket last eodHourUtc)

/-- poz_koruma.rs:152. -/
def dailyGainPct (direction : SetupDirection) (reference current : ℚ) : ℚ :=
  if |reference| < 1 / 10 ^ 12 then 0
  else
    let raw := (current - reference) / reference * 100
    match direction with
    | .long => raw
    | .short => -raw

/-- poz_koruma.rs:176-180. -/
def shiftedSl (direction : SetupDirection) (entry cumulativePct bufferPct : ℚ) : ℚ :=
  let netPct := max (cumulativePct - bufferPct) 0
  match direction with
  | .long => entry * (1 + netPct / 100)
  | .short => entry * (1 - netPct / 100)

/-- poz_koruma.rs:165. -/
def computeRatchetedSl (direction : SetupDirection) (entry currentSl originalSl cumulativePct
    bufferPct : ℚ) : ℚ :=
  let candidate := shiftedSl direction entry cumulativePct bufferPct
  tighterOf direction (tighterOf direction candidate originalSl) currentSl

/-- poz_koruma.rs:87. -/
def evaluate (input : RatchetInput) (cfg : PozKorumaConfig) (now : DateTime) : RatchetOutcome :=
  if !cfg.enabled then .noChange
  else
    let reference := input.referencePrice.getD input.entryPrice
    if !isNewRatchetDay input.lastUpdateAt now cfg.eodHourUtc then .noChange
    else
      let gained := dailyGainPct input.direction reference input.currentPrice
      let newReference := input.currentPrice
      if gained < cfg.minGainPct then .referenceOnly newReference gained now
      else
        let newCumulative := input.cumulativePct + gained
        let newSl := computeRatchetedSl input.direction input.entryPrice input.currentSl
          input.originalSl newCumulative cfg.bufferPct
        .ratcheted ⟨newSl, newReference, newCumulative, gained, now⟩

/-! ## One call -/

/-- The cumulative gain a call would lock in. -/
def RatchetInput.locked (i : RatchetInput) : ℚ :=
  i.cumulativePct + dailyGainPct i.direction (i.referencePrice.getD i.entryPrice) i.currentPrice

/-- The price move the shifted stop of a call would lock in. -/
def RatchetInput.lockedMove (i : RatchetInput) (cfg : PozKorumaConfig) : ℚ :=
  i.entryPrice * max (i.locked - cfg.bufferPct) 0 / 100

/-- A new ratchet day, and a gain that clears the minimum. -/
def Fires (i : RatchetInput) (cfg : PozKorumaConfig) (now : DateTime) : Prop :=
  cfg.enabled = true ∧ isNewRatchetDay i.lastUpdateAt now cfg.eodHourUtc = true
    ∧ cfg.minGainPct ≤ dailyGainPct i.direction (i.referencePrice.getD i.entryPrice) i.currentPrice

instance (i : RatchetInput) (cfg : PozKorumaConfig) (now : DateTime) : Decidable (Fires i cfg now) :=
  inferInstanceAs (Decidable (_ ∧ _ ∧ _))

variable {i : RatchetInput} {cfg : PozKorumaConfig} {now : DateTime} {d : SetupDirection}
  {a b c p : ℚ}

/-- **What a call returns**: a ratchet when it fires, and then the tightest of the shifted, the
original and the current stop. -/
theorem evaluate_cases (i : RatchetInput) (cfg : PozKorumaConfig) (now : DateTime) :
    (Fires i cfg now ∧ ∃ step, evaluate i cfg now = .ratcheted step
      ∧ step.newSl = tighterOf i.direction (tighterOf i.direction
          (shiftedSl i.direction i.entryPrice i.locked cfg.bufferPct) i.originalSl) i.currentSl)
    ∨ ¬ Fires i cfg now ∧ ∀ step, evaluate i cfg now ≠ .ratcheted step := by
  unfold Fires evaluate
  by_cases henabled : cfg.enabled
  · by_cases hday : isNewRatchetDay i.lastUpdateAt now cfg.eodHourUtc
    · by_cases hgain : dailyGainPct i.direction (i.referencePrice.getD i.entryPrice) i.currentPrice <
          cfg.minGainPct
      · right
        simp [henabled, hday, hgain]
      · left
        simp only [henabled, hday, hgain, Bool.not_true, Bool.false_eq_true, if_false, not_lt.1 hgain,
          true_and]
        exact ⟨_, rfl, rfl⟩
    · right
      simp [henabled, hday]
  · right
    simp [henabled]

theorem tighter_tighterOf : Tighter d a (tighterOf d b c) ↔ Tighter d a b ∨ Tighter d a c := by
  cases d <;> simp [Tighter, tighterOf]

theorem tighterOf_tighter : Tighter d (tighterOf d a b) c ↔ Tighter d a c ∧ Tighter d b c := by
  cases d <;> simp [Tighter, tighterOf]

theorem Tighter.asymm (h : Tighter d a b) : ¬ Tighter d b a := by
  cases d with
  | long => exact lt_asymm h
  | short => exact lt_asymm h

theorem not_tighter_self : ¬ Tighter d a a := by
  cases d <;> simp [Tighter]

theorem protects_tighterOf : Protects d (tighterOf d a b) p ↔ Protects d a p ∧ Protects d b p := by
  cases d <;> simp [Protects, tighterOf]

/-- The shifted stop is on the protective side exactly when the price has moved from the entry by at
least what the stop locks in. -/
theorem protects_shiftedSl {entry cum buffer : ℚ} :
    Protects d (shiftedSl d entry cum buffer) p ↔
      entry * max (cum - buffer) 0 / 100 ≤ favourableMove d entry p := by
  cases d with
  | long =>
    simp only [Protects, shiftedSl, favourableMove]
    constructor <;> intro h <;> linarith
  | short =>
    simp only [Protects, shiftedSl, favourableMove]
    constructor <;> intro h <;> linarith

theorem tighter_shiftedSl {entry cum buffer : ℚ} :
    Tighter d a (shiftedSl d entry cum buffer) ↔
      favourableMove d entry a < entry * max (cum - buffer) 0 / 100 := by
  cases d with
  | long =>
    simp only [Tighter, shiftedSl, favourableMove]
    constructor <;> intro h <;> linarith
  | short =>
    simp only [Tighter, shiftedSl, favourableMove]
    constructor <;> intro h <;> linarith

/-! ## A run of calls -/

/-- A call at a price and a time; the caller of a `ReferenceOnly` result may store it or not. -/
structure RatchetCall where
  price : ℚ
  now : DateTime
  keepReference : Bool
deriving DecidableEq

def RatchetCall.input (c : RatchetCall) (i : RatchetInput) : RatchetInput :=
  { i with currentPrice := c.price }

/-- setup_watcher.rs:338-363. -/
def applyOutcome (i : RatchetInput) (keepReference : Bool) : RatchetOutcome → RatchetInput
  | .noChange => i
  | .ratcheted s => { i with
      currentSl := s.newSl
      referencePrice := some s.newReferencePrice
      cumulativePct := s.newCumulativePct
      lastUpdateAt := some s.at_ }
  | .referenceOnly newReference _ at_ =>
    if keepReference then
      { i with referencePrice := some newReference, lastUpdateAt := some at_ }
    else i

def ratchetCall (cfg : PozKorumaConfig) (i : RatchetInput) (c : RatchetCall) : RatchetInput :=
  applyOutcome (c.input i) c.keepReference (evaluate (c.input i) cfg c.now)

/-- A returned stop is strictly tighter than the one it replaces and on the protective side of the
price. -/
def RatchetsWell (cfg : PozKorumaConfig) (i : RatchetInput) (c : RatchetCall) : Prop :=
  ∀ step, evaluate (c.input i) cfg c.now = .ratcheted step →
    Tighter i.direction i.currentSl step.newSl ∧ Protects i.direction step.newSl c.price

/-- If the call fires, the gain it locks in, less the buffer, is more than the current stop locks in
already (or the original stop is tighter than the current one), and no more than the price has moved
from the entry; and neither the original nor the current stop is beyond the price. -/
def RoomToRatchet (cfg : PozKorumaConfig) (i : RatchetInput) (c : RatchetCall) : Prop :=
  Fires (c.input i) cfg c.now →
    (favourableMove i.direction i.entryPrice i.currentSl < (c.input i).lockedMove cfg
        ∨ Tighter i.direction i.currentSl i.originalSl)
      ∧ (c.input i).lockedMove cfg ≤ favourableMove i.direction i.entryPrice c.price
      ∧ Protects i.direction i.originalSl c.price ∧ Protects i.direction i.currentSl c.price

instance (cfg : PozKorumaConfig) (i : RatchetInput) (c : RatchetCall) :
    Decidable (RoomToRatchet cfg i c) := inferInstanceAs (Decidable (_ → _ ∧ _))

theorem ratchetsWell_iff (cfg : PozKorumaConfig) (i : RatchetInput) (c : RatchetCall) :
    RatchetsWell cfg i c ↔ RoomToRatchet cfg i c := by
  unfold RatchetsWell RoomToRatchet
  rcases evaluate_cases (c.input i) cfg c.now with ⟨hfires, step, hstep, hsl⟩ | ⟨hnot, hno⟩
  · have htight : Tighter i.direction i.currentSl step.newSl ↔
        favourableMove i.direction i.entryPrice i.currentSl < (c.input i).lockedMove cfg
          ∨ Tighter i.direction i.currentSl i.originalSl := by
      rw [hsl]
      simp only [RatchetCall.input, tighter_tighterOf, tighter_shiftedSl, not_tighter_self, or_false,
        RatchetInput.lockedMove]
    have hprotects : Protects i.direction step.newSl c.price ↔
        (c.input i).lockedMove cfg ≤ favourableMove i.direction i.entryPrice c.price
          ∧ Protects i.direction i.originalSl c.price ∧ Protects i.direction i.currentSl c.price := by
      rw [hsl]
      simp only [RatchetCall.input, protects_tighterOf, protects_shiftedSl, and_assoc,
        RatchetInput.lockedMove]
    constructor
    · intro h _
      have hgood := h step hstep
      exact ⟨htight.1 hgood.1, hprotects.1 hgood.2⟩
    · intro h step' hstep'
      obtain rfl := RatchetOutcome.ratcheted.inj (hstep.symm.trans hstep')
      exact ⟨htight.2 (h hfires).1, hprotects.2 (h hfires).2⟩
  · constructor
    · intro _ hfires
      exact absurd hfires hnot
    · intro _ step hstep
      exact absurd hstep (hno step)

instance (cfg : PozKorumaConfig) (i : RatchetInput) (c : RatchetCall) :
    Decidable (RatchetsWell cfg i c) := decidable_of_iff _ (ratchetsWell_iff cfg i c).symm

/-- **The ratchet over a run**: it does what it promises exactly on the runs in which every call that
fires has room to ratchet. -/
theorem ratchetsWell_run_iff (cfg : PozKorumaConfig) (i : RatchetInput) (calls : List RatchetCall) :
    AllSteps (ratchetCall cfg) (RatchetsWell cfg) i calls ↔
      AllSteps (ratchetCall cfg) (RoomToRatchet cfg) i calls :=
  allSteps_congr (J := fun _ => True) (K := fun _ => True) (fun _ _ _ _ => trivial)
    (fun i c _ _ => ratchetsWell_iff cfg i c) trivial fun _ _ => trivial

/-- A long from 100 with its stop at 95. -/
def longFrom100 : RatchetInput := ⟨.long, 100, 100, 95, 95, none, 0, none⟩

/-- Up to 110, down to 100, up to 110 again, a day apart. -/
def rebound : List RatchetCall := [⟨110, 86400, true⟩, ⟨100, 172800, true⟩, ⟨110, 259200, true⟩]

/-- The second 110 moves the stop to 119.95. -/
theorem rebound_reclaims :
    ¬ AllSteps (ratchetCall .fallback) (RatchetsWell .fallback) longFrom100 rebound
    ∧ (run (ratchetCall .fallback) longFrom100 rebound).currentSl = 2399 / 20
    ∧ ¬ Protects .long (run (ratchetCall .fallback) longFrom100 rebound).currentSl 110 := by
  decide +kernel

end Qtss.Notify
