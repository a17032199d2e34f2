import Mathlib.Algebra.Order.Field.Rat
import Qtss.Json
import Qtss.Lib.Runs
/-
# The kill switch (`qtss-worker/src/kill_switch.rs`)

| here | there |
| --- | --- |
| `effectiveTriggerNeg` | `effective_trigger_neg` (kill_switch.rs:117), over what the configuration gives |
| `World.halted`        | `TRADING_HALTED` of the worker process (`qtss-common/src/kill_switch.rs:5`) |
| `World.persisted`     | the row `kill_switch_trading_halted` of `app_config` |
| `Op.check`, `sum`, `halt`, `persist` | one turn of `kill_switch_loop` (:189) |
| `Op.read`, `apply`    | one turn of `kill_switch_db_sync_loop` (:153) |
| `Op.reset`            | `kill_switch_reset` (`qtss-api/src/routes/kill_switch_admin.rs:26`): the API's own process flag is another one |

Each is one access to the flag or one statement, the three tasks run side by side, and each statement can
fail. `World.tripped` is in no variable of the source: the loop has halted trading since the last reset.

The sync loop cannot tell a `false` that an admin wrote from one that was there before the trip. It applies
what it has read (`latched_iff`), whether the trip came after the reading, is not persisted yet, or never will
be.
-/

namespace Qtss.Worker.KillSwitch
open Runs

/-- kill_switch.rs:117: a drawdown percentage of the equity if there is one, else the daily loss. -/
def effectiveTriggerNeg (maxDrawdownPct : Option ℚ) (referenceEquityUsdt dailyLossUsdt : ℚ) : ℚ :=
  match maxDrawdownPct with
  | some pct => if pct ≤ 0 then -dailyLossUsdt else -(referenceEquityUsdt * pct / 100)
  | none => -dailyLossUsdt

/-- Where `kill_switch_loop` is. -/
inductive LoopAt where
  /-- Asleep. -/
  | idle
  /-- Trading was not halted, the losses are being read. -/
  | reading
  | read (sum : ℚ)
  /-- Halted, the flag is not stored yet. -/
  | persisting
deriving DecidableEq

structure World where
  halted : Bool
  persisted : Option Json
  loop : LoopAt
  /-- What the sync loop has read and not applied. -/
  sync : Option (Option Json)
  tripped : Bool

def World.start (halted : Bool) (persisted : Option Json) : World := ⟨halted, persisted, .idle, none, false⟩

inductive Op where
  | check
  | sum (sum : Option ℚ)
  | halt
  | persist (ok : Bool)
  | read (ok : Bool)
  | apply
  | reset (ok : Bool)
deriving DecidableEq

/-- What the sync loop makes of the value it has read. -/
def applyFlag (halted : Bool) (v : Option Json) : Bool :=
  match v.bind Json.asBool with
  | some false => if halted then false else halted
  | some true => if !halted then true else halted
  | none => halted

def step (triggerNeg : ℚ) (w : World) : Op → World
  | .check =>
    match w.loop with
    | .idle => if w.halted then w else { w with loop := .reading }
    | _ => w
  | .sum s =>
    match w.loop with
    | .reading => { w with loop := (s.map LoopAt.read).getD .idle }
    | _ => w
  | .halt =>
    match w.loop with
    | .read s =>
      if s < triggerNeg then { w with halted := true, tripped := true, loop := .persisting }
      else { w with loop := .idle }
    | _ => w
  | .persist ok =>
    match w.loop with
    | .persisting => { w with persisted := if ok then some (.bool true) else w.persisted, loop := .idle }
    | _ => w
  | .read ok =>
    match w.sync with
    | none => if ok then { w with sync := some w.persisted } else w
    | some _ => w
  | .apply =>
    match w.sync with
    | some v => { w with halted := applyFlag w.halted v, sync := none }
    | none => w
  | .reset ok => if ok then { w with persisted := some (.bool false), tripped := false } else w

/-! ## Latching -/

/-- After a trip trading is halted, until a reset. -/
def Latched (w : World) : Prop := w.tripped → w.halted

instance (w : World) : Decidable (Latched w) := inferInstanceAs (Decidable (_ → _))

/-- The sync loop does not come with a `false` while a trip is in force. -/
def NoStaleClear (w : World) : Op → Prop
  | .apply => w.tripped → w.sync.bind (·.bind Json.asBool) ≠ some false
  | _ => True

section
variable {triggerNeg : ℚ} {w : World} {op : Op}

theorem applyFlag_halted {v : Option Json} (h : v.bind Json.asBool ≠ some false) : applyFlag true v = true := by
  unfold applyFlag
  split
  · rename_i hfalse
    exact absurd hfalse h
  · rfl
  · rfl

theorem applyFlag_false {halted : Bool} {v : Option Json} (h : v.bind Json.asBool = some false) :
    applyFlag halted v = false := by
  unfold applyFlag
  rw [h]
  cases halted <;> rfl

/-- A step without a stale `false` leaves a trip in force. -/
theorem latched_step (h : Latched w) (hgood : NoStaleClear w op) : Latched (step triggerNeg w op) := by
  cases op with
  | check =>
    simp only [step]
    split
    · split <;> exact h
    · exact h
  | sum s =>
    simp only [step]
    split <;> exact h
  | halt =>
    simp only [step]
    split
    · split
      · exact fun _ => rfl
      · exact h
    · exact h
  | persist ok =>
    simp only [step]
    split <;> exact h
  | read ok =>
    simp only [step]
    split
    · split <;> exact h
    · exact h
  | apply =>
    cases hsync : w.sync with
    | none =>
      simp only [step, hsync]
      exact h
    | some v =>
      intro htripped
      simp only [step, hsync] at htripped ⊢
      rw [h htripped]
      apply applyFlag_halted
      simpa [NoStaleClear, hsync] using hgood htripped
  | reset ok =>
    simp only [step]
    split
    · intro htripped
      cases htripped
    · exact h

/-- A stale `false` ends it. -/
theorem latched_bad (hbad : ¬ NoStaleClear w op) : ¬ Latched (step triggerNeg w op) := by
  cases op with
  | apply =>
    simp only [NoStaleClear, not_forall, not_not, exists_prop] at hbad
    obtain ⟨htripped, hfalse⟩ := hbad
    obtain ⟨v, hsync, hv⟩ := Option.bind_eq_some_iff.1 hfalse
    intro hlatched
    have hhalted : (step triggerNeg w .apply).halted = true := by
      apply hlatched
      simp only [step, hsync]
      exact htripped
    simp only [step, hsync, applyFlag_false hv] at hhalted
    cases hhalted
  | _ => exact absurd trivial hbad

end

/-- **The latch**: over any interleaving of the two loops and the resets, trading is halted from every trip to the
next reset exactly when the sync loop never applies a `false` in between. -/
theorem latched_iff (triggerNeg : ℚ) (halted : Bool) (persisted : Option Json) (ops : List Op) :
    AllStates (step triggerNeg) Latched (.start halted persisted) ops ↔
      AllSteps (step triggerNeg) NoStaleClear (.start halted persisted) ops := by
  apply allStates_iff_allSteps (J := Latched) (K := fun _ => True)
  · exact fun w hw => hw
  · exact fun w op hw _ hgood => latched_step hw hgood
  · exact fun w op _ _ hbad => latched_bad hbad
  · intro h
    cases h
  · exact fun _ _ => trivial

/-- The flag was reset some time ago and is `false`. The sync loop reads it, the limit of 100 trips and is persisted,
and the sync loop goes on: trading is on again, with the halt in the table. -/
theorem read_before_trip_resumes :
    let w := run (step (effectiveTriggerNeg (some 10) 1000 0)) (.start false (some (.bool false)))
      [.check, .sum (some (-150)), .read true, .halt, .persist true, .apply]
    w.tripped = true ∧ w.halted = false ∧ w.persisted.bind Json.asBool = some true := by
  decide +kernel

end Qtss.Worker.KillSwitch
