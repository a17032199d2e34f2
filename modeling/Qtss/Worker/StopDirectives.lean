import Mathlib.Data.List.Sort
import Mathlib.Tactic.Linarith
import Qtss.Ai.Decisions
import Qtss.Execution.DryLedger
import Qtss.Lib.Float64
import Qtss.Lib.Runs
/-
# Directives and the stop of a long book (`qtss-worker/src/position_manager.rs`)

| here | there |
| --- | --- |
| `PositionManagerConfig` | `PmLoopConfig` (:49); `liveOn` is `live_on` (:397), `minQty` is `min_qty_filter` (:184) |
| `TacticalRow`, `DirectiveRow` | qtss-ai/src/storage.rs:11, :29, the columns the loop reads |
| `fetchLatestApprovedTactical`, `fetchLatestApprovedDirective` | qtss-ai/src/storage.rs:349, :371 |
| `applyTactical`, `applyDirective` | position_manager.rs:463-474, :476-576 |
| `outcome`           | the rest of a book's turn (:578-1207), up to the order it places |
| `marks`             | which rows it hands to `mark_applied` |

`Decimal::from_f64` and `str::to_uppercase` are parameters. What the database and the venue answer is part of a
`Turn`: a read that fails counts as no row, and a mark is lost where its UPDATE fails or an error path leaves first.
The managed trailing stop follows its own peak and reads none of the fractions, so its state is left out.

The two factors are `Decimal::new(9, 1)` and `Decimal::new(11, 1)`, that is 0.9 and 1.1, and both are divided by ten
once more: to widen a stop takes it to 11 per cent of its distance.
-/

namespace Qtss.Worker.StopDirectives
open Ai Runs
open Execution.Dry (trim)

structure PositionManagerConfig where
  slPct : ℚ
  tpPct : ℚ
  trailingOnDirective : Bool
  managedTrailing : Bool
  liveOn : Bool
  minQty : ℚ

structure TacticalRow where
  id : Uuid
  createdAt : DateTime
  validUntil : DateTime
  symbol : String
  stopLossPct : Option F64
  takeProfitPct : Option F64
  status : ChildStatus
deriving DecidableEq

structure DirectiveRow where
  id : Uuid
  createdAt : DateTime
  symbol : String
  action : String
  newStopLossPct : Option F64
  newTakeProfitPct : Option F64
  trailingCallbackPct : Option F64
  partialClosePct : Option F64
  status : ChildStatus
deriving DecidableEq

structure AiTables where
  tactical : List TacticalRow
  directives : List DirectiveRow

/-- One book's turn in a tick: what it finds, and what it is answered. -/
structure Turn where
  symbol : String
  qty : ℚ
  cost : ℚ
  /-- The last close, if there is a bar. -/
  mark : Option ℚ
  /-- A futures position on Binance. -/
  binanceFutures : Bool
  now : DateTime
  tacticalRead : Bool
  directiveRead : Bool
  /-- The order of a directive's close was placed and recorded. -/
  closeExecuted : Bool
  tacticalMarked : Bool
  directiveMarked : Bool

def Turn.entry (t : Turn) : ℚ := t.cost / t.qty

/-! ## Rows -/

/-- `ORDER BY created_at DESC LIMIT 1`. -/
def latest {α : Type} (createdAt : α → DateTime) (rows : List α) : Option α :=
  (rows.insertionSort fun a b => createdAt b ≤ createdAt a).head?

section fetch
variable (toUppercase : String → String) (tables : AiTables) (symbol : String) (now : DateTime)

def fetchLatestApprovedTactical : Option TacticalRow :=
  latest (·.createdAt) <| tables.tactical.filter fun td =>
    td.symbol = toUppercase (trim symbol) && td.status = .approved && td.validUntil > now

/-- Ten minutes at most. -/
def fetchLatestApprovedDirective : Option DirectiveRow :=
  latest (·.createdAt) <| tables.directives.filter fun dir =>
    dir.symbol = toUppercase (trim symbol) && dir.status = .approved && dir.createdAt > now - 600

end fetch

/-! ## Fractions -/

inductive DirectiveCloseKind where
  | part (qty : ℚ)
  | full
deriving DecidableEq

/-- The loop's variables for one book. -/
structure Adjusted where
  slFrac : ℚ
  tpFrac : ℚ
  requestedTrailing : Bool
  close : Option DirectiveCloseKind
  callbackPct : Option F64

def configured (cfg : PositionManagerConfig) : Adjusted where
  slFrac := cfg.slPct / 100
  tpFrac := cfg.tpPct / 100
  requestedTrailing := false
  close := none
  callbackPct := none

section apply
variable (fromF64 : F64 → Option ℚ)

/-- A percentage that is given and converts replaces a fraction. -/
def replaced (pct : Option F64) (frac : ℚ) : ℚ :=
  match pct.bind fromF64 with
  | some d => d / 100
  | none => frac

def applyTactical (td : TacticalRow) (a : Adjusted) : Adjusted :=
  { a with slFrac := replaced fromF64 td.stopLossPct a.slFrac
           tpFrac := replaced fromF64 td.takeProfitPct a.tpFrac }

/-- Without a percentage of its own a directive scales the fraction. -/
def scaled (pct : Option F64) (factor frac : ℚ) : ℚ :=
  match pct with
  | some _ => replaced fromF64 pct frac
  | none => frac * factor / 10

/-- `Decimal::new(9, 1)`. -/
def tightenFactor : ℚ := 9 / 10

/-- `Decimal::new(11, 1)`. -/
def widenFactor : ℚ := 11 / 10

/-- `f64::clamp(0.0, 100.0)`; a NaN stays one. -/
def clampPct (p : F64) : F64 := if p.lt (.fin 0) then .fin 0 else if F64.lt (.fin 100) p then .fin 100 else p

/-- The quantity a partial close asks for, if it is large enough. -/
def partialQty (cfg : PositionManagerConfig) (qty : ℚ) (pct : Option F64) : Option DirectiveCloseKind :=
  let pctRaw := clampPct (pct.getD (.fin 50))
  if F64.lt (.fin 0) pctRaw then
    match fromF64 (pctRaw.div (.fin 100)) with
    | some ratio =>
      let q := max (qty * ratio) 0
      if cfg.minQty ≤ q then some (.part q) else none
    | none => none
  else none

def applyDirective (cfg : PositionManagerConfig) (qty : ℚ) (dir : DirectiveRow) (a : Adjusted) : Adjusted :=
  let a := { a with callbackPct := (dir.trailingCallbackPct.filter (F64.lt (.fin 0))).or a.callbackPct }
  match dir.action with
  | "keep" => a
  | "tighten_stop" =>
    { a with requestedTrailing := true
             slFrac := scaled fromF64 dir.newStopLossPct tightenFactor a.slFrac
             tpFrac := replaced fromF64 dir.newTakeProfitPct a.tpFrac }
  | "widen_stop" =>
    { a with requestedTrailing := true
             slFrac := scaled fromF64 dir.newStopLossPct widenFactor a.slFrac
             tpFrac := replaced fromF64 dir.newTakeProfitPct a.tpFrac }
  | "activate_trailing" =>
    { a with requestedTrailing := true
             slFrac := replaced fromF64 dir.newStopLossPct a.slFrac
             tpFrac := replaced fromF64 dir.newTakeProfitPct a.tpFrac }
  | "deactivate_trailing" => { a with requestedTrailing := false }
  | "partial_close" => { a with close := partialQty fromF64 cfg qty dir.partialClosePct }
  | "full_close" => { a with close := some .full }
  -- "add_to_position" and an unknown action are logged
  | _ => a

end apply

/-! ## A turn -/

inductive Outcome where
  /-- Too small a book, or no bar. -/
  | passed
  | closeTooSmall
  | directiveClose (qty : ℚ) (placed : Bool)
  | managedTrailing
  | trailingStop (callbackPct : ℚ)
  | stopCheck (slPrice tpPrice : ℚ) (hitSl hitTp : Bool)
deriving DecidableEq

section turn
variable (toUppercase : String → String) (fromF64 : F64 → Option ℚ) (cfg : PositionManagerConfig)
  (tables : AiTables) (t : Turn)

def tacticalOf : Option TacticalRow :=
  if t.tacticalRead then fetchLatestApprovedTactical toUppercase tables t.symbol t.now else none

def directiveOf : Option DirectiveRow :=
  if t.directiveRead then fetchLatestApprovedDirective toUppercase tables t.symbol t.now else none

/-- The fractions before the directive. -/
def base : Adjusted :=
  (tacticalOf toUppercase tables t).elim (configured cfg) (applyTactical fromF64 · (configured cfg))

/-- The fractions in force. -/
def effective : Adjusted :=
  (directiveOf toUppercase tables t).elim (base toUppercase fromF64 cfg tables t)
    (applyDirective fromF64 cfg t.qty · (base toUppercase fromF64 cfg tables t))

/-- The stop price of a long. -/
def stopPrice (entry frac : ℚ) : ℚ := entry * (1 - frac)

/-- The callback rate of a trailing stop: the directive's, or the stop's own distance. -/
def callbackRate (a : Adjusted) : ℚ :=
  ((a.callbackPct.bind fromF64).filter fun d => decide (1 / 10 ≤ d)).getD (max (a.slFrac * 100) (1 / 10))

/-- The book is large enough and has a bar. -/
def Turn.reached (t : Turn) : Bool := decide (cfg.minQty ≤ t.qty) && decide (0 < t.qty) && t.mark.isSome

def outcome : Outcome :=
  match t.mark with
  | none => .passed
  | some mark =>
    if t.qty < cfg.minQty ∨ t.qty ≤ 0 then .passed
    else
      let a := effective toUppercase fromF64 cfg tables t
      match a.close with
      | some kind =>
        let qty := match kind with
          | .part q => q
          | .full => t.qty
        if qty < cfg.minQty then .closeTooSmall else .directiveClose qty t.closeExecuted
      | none =>
        if cfg.managedTrailing && cfg.liveOn && t.binanceFutures then .managedTrailing
        else if cfg.trailingOnDirective && a.requestedTrailing && cfg.liveOn && t.binanceFutures then
          .trailingStop (callbackRate fromF64 a)
        else
          let slPrice := stopPrice t.entry a.slFrac
          let tpPrice := t.entry * (1 + a.tpFrac)
          .stopCheck slPrice tpPrice (decide (mark ≤ slPrice)) (decide (tpPrice ≤ mark))

/-- Whether the tactical decision and the directive are marked `applied`. -/
def marks : Outcome → Bool × Bool
  | .passed => (false, false)
  | .closeTooSmall => (false, t.directiveMarked)
  | .directiveClose _ placed => (false, placed && t.directiveMarked)
  | .managedTrailing | .trailingStop _ => (false, t.directiveMarked)
  | .stopCheck .. => (t.tacticalMarked, t.directiveMarked)

/-- `UPDATE … SET status = 'applied' WHERE id = $1`, on both tables. -/
def markApplied (tactical directive : Option Uuid) : AiTables where
  tactical := tables.tactical.map fun td => if some td.id = tactical then { td with status := .applied } else td
  directives := tables.directives.map fun dir =>
    if some dir.id = directive then { dir with status := .applied } else dir

def turn : AiTables :=
  let (tactical, directive) := marks t (outcome toUppercase fromF64 cfg tables t)
  markApplied tables (if tactical then (tacticalOf toUppercase tables t).map (·.id) else none)
    (if directive then (directiveOf toUppercase tables t).map (·.id) else none)

end turn

/-- A turn of the position manager, or whatever the AI's engines, its approvals and the expiry do to
the tables in between. -/
inductive Op where
  | turn (t : Turn)
  | rewrite (tables : AiTables)

section runs
variable (toUppercase : String → String) (fromF64 : F64 → Option ℚ) (cfg : PositionManagerConfig)

def step (tables : AiTables) : Op → AiTables
  | .turn t => turn toUppercase fromF64 cfg tables t
  | .rewrite tables' => tables'

/-- What a directive without a percentage of its own is to do to the stop of a long: tighten it
towards the entry, or widen it. -/
structure Moves (action : String) (entry base effective : ℚ) : Prop where
  tighten : action = "tighten_stop" → 0 < effective ∧ effective ≤ base ∧
    (0 < entry → stopPrice entry base ≤ stopPrice entry effective ∧ stopPrice entry effective < entry)
  widen : action = "widen_stop" → base ≤ effective ∧
    (0 < entry → stopPrice entry effective ≤ stopPrice entry base)

/-- The directive in force at a turn moves the stop as it says. -/
def Meant (tables : AiTables) : Op → Prop
  | .turn t => t.reached cfg → ∀ dir ∈ directiveOf toUppercase tables t, dir.newStopLossPct = none →
      Moves dir.action t.entry (base toUppercase fromF64 cfg tables t).slFrac
        (effective toUppercase fromF64 cfg tables t).slFrac
  | .rewrite _ => True

/-- Such a directive tightens a positive fraction, and widens none. -/
def Signed (tables : AiTables) : Op → Prop
  | .turn t => t.reached cfg → ∀ dir ∈ directiveOf toUppercase tables t, dir.newStopLossPct = none →
      (dir.action = "tighten_stop" → 0 < (base toUppercase fromF64 cfg tables t).slFrac) ∧
        (dir.action = "widen_stop" → (base toUppercase fromF64 cfg tables t).slFrac ≤ 0)
  | .rewrite _ => True

section lemmas
variable {toUppercase : String → String} {fromF64 : F64 → Option ℚ} {cfg : PositionManagerConfig}

/-- Stops of a long move against their fractions. -/
theorem stopPrice_le_iff {entry a b : ℚ} (hentry : 0 < entry) :
    stopPrice entry a ≤ stopPrice entry b ↔ b ≤ a := by
  rw [stopPrice, stopPrice, mul_le_mul_iff_right₀ hentry, sub_le_sub_iff_left]

theorem stopPrice_lt_iff {entry a : ℚ} (hentry : 0 < entry) : stopPrice entry a < entry ↔ 0 < a := by
  rw [stopPrice, mul_lt_iff_lt_one_right hentry, sub_lt_self_iff]

/-- The price part of the claim follows from the fractions. -/
theorem moves_iff {action : String} {entry base effective : ℚ} : Moves action entry base effective ↔
    (action = "tighten_stop" → 0 < effective ∧ effective ≤ base) ∧
      (action = "widen_stop" → base ≤ effective) := by
  constructor
  · rintro ⟨htighten, hwiden⟩
    exact ⟨fun h => ⟨(htighten h).1, (htighten h).2.1⟩, fun h => (hwiden h).1⟩
  · rintro ⟨htighten, hwiden⟩
    constructor
    · intro h
      obtain ⟨hpos, hle⟩ := htighten h
      exact ⟨hpos, hle, fun hentry => ⟨(stopPrice_le_iff hentry).2 hle, (stopPrice_lt_iff hentry).2 hpos⟩⟩
    · intro h
      exact ⟨hwiden h, fun hentry => (stopPrice_le_iff hentry).2 (hwiden h)⟩

/-- The fraction under a directive without a percentage of its own. -/
theorem slFrac_applyDirective {dir : DirectiveRow} (hown : dir.newStopLossPct = none) (qty : ℚ) (a : Adjusted) :
    (dir.action = "tighten_stop" →
      (applyDirective fromF64 cfg qty dir a).slFrac = a.slFrac * tightenFactor / 10) ∧
    (dir.action = "widen_stop" →
      (applyDirective fromF64 cfg qty dir a).slFrac = a.slFrac * widenFactor / 10) := by
  constructor
  · intro h
    simp only [applyDirective, h, hown, scaled]
  · intro h
    simp only [applyDirective, h, hown, scaled]

/-- Nine per cent of a positive fraction tighten it, and so do the eleven that should widen it. -/
theorem meant_iff (tables : AiTables) (op : Op) :
    Meant toUppercase fromF64 cfg tables op ↔ Signed toUppercase fromF64 cfg tables op := by
  cases op with
  | rewrite => rfl
  | turn t =>
    refine forall_congr' fun _ => forall_congr' fun dir => forall_congr' fun hdir => forall_congr' fun hown => ?_
    have heff : effective toUppercase fromF64 cfg tables t =
        applyDirective fromF64 cfg t.qty dir (base toUppercase fromF64 cfg tables t) := by
      rw [effective, Option.mem_def.1 hdir, Option.elim_some]
    obtain ⟨htighten, hwiden⟩ := @slFrac_applyDirective fromF64 cfg dir hown t.qty
      (base toUppercase fromF64 cfg tables t)
    rw [moves_iff, heff]
    refine and_congr (forall_congr' fun h => ?_) (forall_congr' fun h => ?_)
    · rw [htighten h, tightenFactor]
      exact ⟨fun hmove => by linarith [hmove.1], fun hpos => ⟨by linarith, by linarith⟩⟩
    · rw [hwiden h, widenFactor]
      exact ⟨fun hmove => by linarith, fun hneg => by linarith⟩

end lemmas

/-- **stop_directives_iff**: over any run of turns, whatever happens to the tables in between, the
directives move the stops as they say exactly when no positive fraction is to be widened (and none
that is not positive tightened); the tighter of the two is the tighter stop in any case. -/
theorem stop_directives_iff (tables : AiTables) (ops : List Op) :
    (AllSteps (step toUppercase fromF64 cfg) (Meant toUppercase fromF64 cfg) tables ops ∧
      ∀ frac, 0 < frac → scaled fromF64 none tightenFactor frac < scaled fromF64 none widenFactor frac) ↔
    AllSteps (step toUppercase fromF64 cfg) (Signed toUppercase fromF64 cfg) tables ops := by
  have hordered : ∀ frac, 0 < frac →
      scaled fromF64 none tightenFactor frac < scaled fromF64 none widenFactor frac := by
    intro frac hfrac
    simp only [scaled, tightenFactor, widenFactor]
    linarith
  rw [and_iff_left hordered]
  exact allSteps_congr (J := fun _ => True) (K := fun _ => True) (fun _ _ _ _ => trivial)
    (fun tables op _ _ => meant_iff tables op) trivial fun _ _ => trivial

end runs

/-- Two per cent, no trailing stops. -/
def twoPercent : PositionManagerConfig where
  slPct := 2
  tpPct := 4
  trailingOnDirective := false
  managedTrailing := false
  liveOn := false
  minQty := 1 / 100000000

def widenDirective : DirectiveRow where
  id := 7
  createdAt := 1000
  symbol := "BTCUSDT"
  action := "widen_stop"
  newStopLossPct := none
  newTakeProfitPct := none
  trailingCallbackPct := none
  partialClosePct := none
  status := .approved

/-- One unit long from 100, a last close of 99. -/
def longAt99 : Turn where
  symbol := "BTCUSDT"
  qty := 1
  cost := 100
  mark := some 99
  binanceFutures := false
  now := 1060
  tacticalRead := true
  directiveRead := true
  closeExecuted := true
  tacticalMarked := true
  directiveMarked := true

def exactF64 : F64 → Option ℚ
  | .fin q => some q
  | _ => none

/-- The stop of 98 would have held; the one that was to be wider is 99.78, and the position is closed. -/
theorem widen_closes :
    ¬AllSteps (step id exactF64 twoPercent) (Meant id exactF64 twoPercent) ⟨[], [widenDirective]⟩
        [.turn longAt99] ∧
      outcome id exactF64 twoPercent ⟨[], []⟩ longAt99 = .stopCheck 98 104 false false ∧
      outcome id exactF64 twoPercent ⟨[], [widenDirective]⟩ longAt99 =
        .stopCheck (9978 / 100) 104 true false := by
  refine ⟨?_, by decide +kernel, by decide +kernel⟩
  intro hall
  have hfetched : directiveOf id ⟨[], [widenDirective]⟩ longAt99 = some widenDirective := by decide +kernel
  have hmove := (hall.1 (by decide +kernel) _ hfetched rfl).widen rfl
  exact absurd hmove.1 (by decide +kernel)

end Qtss.Worker.StopDirectives
