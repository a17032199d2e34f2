import Mathlib.Tactic.Positivity
import Mathlib.Algebra.Order.Ring.Abs
import Qtss.Lib.Keyed
import Qtss.Portfolio.AverageCost
import Qtss.Risk.State
/-
# The portfolio engine (`qtss-portfolio/src/engine.rs`)

| here | there |
| --- | --- |
| `PortfolioEngine`            | `PortfolioEngine` (engine.rs:26); `new` takes the `Utc::now()` it reads |
| `PortfolioEngine.applyFill`  | `PortfolioEngine::apply_fill` (:74) |
| `PortfolioEngine.mark`, `.markAll` | `mark`, `mark_all` (:93, :101) — the prices of `mark_all` in any order |
| `PortfolioEngine.equity`     | `equity` (:112) |
| `PortfolioEngine.snapshot`   | `snapshot` (:142) |

`apply_fill` moves cash by the whole notional of the fill, while `equity` adds only the unrealised
pnl to cash; the comment on `equity` ("Realised pnl is already baked into cash") describes a cash
account that moves by realised pnl. `fillDrift` is the difference one fill makes, `equity_identity_iff`
the exact condition under which a run ends with the documented equity.
-/

namespace Qtss.Portfolio
open Runs Keyed

structure PortfolioConfig where
  startingEquity : ℚ
deriving DecidableEq

structure PortfolioEngine where
  config : PortfolioConfig
  positions : HashMap String Position
  cash : ℚ
  realisedToday : ℚ
  peakEquity : ℚ
  dayAnchor : ℚ
  dayAnchorAt : DateTime
  killSwitchManual : Bool
deriving DecidableEq

namespace PortfolioEngine

/-- engine.rs:40. -/
def new (config : PortfolioConfig) (now : DateTime) : PortfolioEngine where
  config := config
  positions := ∅
  cash := config.startingEquity
  realisedToday := 0
  peakEquity := config.startingEquity
  dayAnchor := config.startingEquity
  dayAnchorAt := now
  killSwitchManual := false

/-- engine.rs:112: "Total equity = cash + unrealised pnl across all positions." -/
def equity (e : PortfolioEngine) : ℚ := e.cash + sumValues (·.unrealisedPnl) e.positions

def dayPnl (e : PortfolioEngine) : ℚ := e.equity - e.dayAnchor

def openCount (e : PortfolioEngine) : Nat := (values e.positions).countP fun p => !p.isFlat

def refreshPeak (e : PortfolioEngine) : PortfolioEngine :=
  if e.equity > e.peakEquity then { e with peakEquity := e.equity } else e

def setKillSwitch (e : PortfolioEngine) (on : Bool) : PortfolioEngine :=
  { e with killSwitchManual := on }

/-- engine.rs:74. -/
def applyFill (e : PortfolioEngine) (symbol : String) (side : Side) (qty price fee : ℚ) :
    PortfolioEngine :=
  let (pos, realised) :=
    ((e.positions.lookup symbol).getD (.flat symbol)).applyFill side qty price fee
  let notional := qty * price
  let moved := match side with
    | .long => -notional
    | .short => notional
  refreshPeak
    { e with
      positions := e.positions.insert symbol pos
      realisedToday := e.realisedToday + realised
      cash := e.cash + (moved - fee) }

/-- engine.rs:93. -/
def mark (e : PortfolioEngine) (symbol : String) (price : ℚ) : PortfolioEngine :=
  refreshPeak { e with positions := adjust (·.mark price) symbol e.positions }

/-- engine.rs:101. -/
def markAll (e : PortfolioEngine) (prices : HashMap String ℚ) : PortfolioEngine :=
  refreshPeak
    { e with
      positions :=
        prices.entries.foldl (fun ps sp => adjust (·.mark sp.2) sp.1 ps) e.positions }

/-- engine.rs:130: midnight of the UTC date, in days since the epoch. -/
def dateNaive (t : DateTime) : Int := t / 86400

def rolloverDay (e : PortfolioEngine) (now : DateTime) : PortfolioEngine :=
  if dateNaive now = dateNaive e.dayAnchorAt then e
  else { e with dayAnchor := e.equity, dayAnchorAt := now, realisedToday := 0 }

/-- engine.rs:142. -/
def snapshot (e : PortfolioEngine) : Risk.AccountState :=
  let equity := e.equity
  let grossNotional :=
    (((values e.positions).filter fun p => !p.isFlat).map
      fun p => max p.lastMark p.avgEntry * p.quantity).sum
  { equity := equity
    peakEquity := e.peakEquity
    dayPnl := e.dayPnl
    openPositions := e.openCount
    currentLeverage := if equity > 0 then grossNotional / equity else 0
    killSwitchManual := e.killSwitchManual }

end PortfolioEngine

/-- The calls that move equity. -/
inductive Op where
  | fill (symbol : String) (f : Fill)
  | mark (symbol : String) (price : ℚ)
  | markAll (prices : HashMap String ℚ)

def PortfolioEngine.step (e : PortfolioEngine) : Op → PortfolioEngine
  | .fill symbol f => e.applyFill symbol f.side f.qty f.price f.fee
  | .mark symbol price => e.mark symbol price
  | .markAll prices => e.markAll prices

/-- A fill has a positive quantity and price; marks are arbitrary. -/
def Op.Valid : Op → Prop
  | .fill _ f => 0 < f.qty ∧ 0 < f.price
  | .mark _ _ | .markAll _ => True

def Op.IsMark : Op → Prop
  | .fill _ _ => False
  | .mark _ _ | .markAll _ => True

instance : DecidablePred Op.Valid
  | .fill _ f => inferInstanceAs (Decidable (0 < f.qty ∧ 0 < f.price))
  | .mark _ _ | .markAll _ => inferInstanceAs (Decidable True)

/-! ## Positions of a run -/

/-- What fills at positive prices and any marks keep of a position: it is well-formed, an open
quantity has a positive average entry, and the unrealised pnl is the one at the last mark. -/
structure Position.Sound (p : Position) : Prop where
  ok : p.Ok
  avg : p.net ≠ 0 → 0 < p.avgEntry
  unrealised : p.unrealisedPnl = p.markPnl p.lastMark

theorem sound_flat (symbol : String) : (Position.flat symbol).Sound :=
  ⟨ok_flat symbol, by simp, by simp [Position.flat, Position.markPnl]⟩

section position
variable {p : Position} {side : Side} {qty price fee : ℚ}

theorem sound_mark (h : p.Sound) (price : ℚ) : (p.mark price).Sound := by
  rw [mark_eq h.ok]
  exact ⟨h.ok, h.avg, rfl⟩

theorem sound_applyFill (h : p.Sound) (hq : 0 < qty) (hp : 0 < price) :
    (p.applyFill side qty price fee).1.Sound := by
  refine ⟨applyFill_ok h.ok hq, ?_, ?_⟩
  · rw [applyFill_net h.ok hq, applyFill_avgEntry h.ok hq]
    intro hne
    rcases routes p.net (signed side qty) with hn | ⟨-, hd⟩ | hs | hs
    · simpa [book_open hq hn] using hp
    · exact absurd hd hne
    · rw [book_extend hs]
      have havg := h.avg (left_ne_zero_of_mul hs.ne')
      have hm : 0 < |p.net + signed side qty| := abs_pos.2 (right_ne_zero_of_mul hs.ne')
      positivity
    · simpa [book_flip h.ok hq hs] using hp
  · rw [applyFill_unrealisedPnl h.ok hq, applyFill_lastMark h.ok hq]

/-- No fill at a positive price leaves the cost of the position where it was. -/
theorem book_cost_ne (h : p.Sound) (hq : 0 < qty) (hp : 0 < price) :
    (p.book side qty price).1.cost ≠ p.cost := by
  have hd0 := signed_ne_zero side hq
  simp only [Position.cost, (book_net h.ok hq _ _).2]
  rcases routes p.net (signed side qty) with hn | ⟨hn, hd⟩ | hs | hs
  · rw [book_open hq hn, hn]
    simp [hd0, hp.ne']
  · rw [hd, zero_mul]
    exact (mul_ne_zero hn (h.avg hn).ne').symm
  · -- averaging in makes the cost larger in absolute value
    intro heq
    have hn : p.net ≠ 0 := left_ne_zero_of_mul hs.ne'
    have hm : |p.net + signed side qty| ≠ 0 := abs_ne_zero.2 (right_ne_zero_of_mul hs.ne')
    have havg := h.avg hn
    have habs := congrArg abs heq
    rw [book_extend hs, abs_mul, abs_mul, abs_div, abs_abs, mul_div_cancel₀ _ hm,
      abs_of_pos (by positivity : 0 < p.avgEntry * |p.net| + price * qty), abs_of_pos havg] at habs
    nlinarith [mul_pos hp hq]
  · -- a flip changes its sign
    intro heq
    have havg := h.avg (left_ne_zero_of_mul hs.ne)
    rw [book_flip h.ok hq hs] at heq
    have hneg : p.net * p.avgEntry * (p.net * p.avgEntry) < 0 := by
      have := mul_neg_of_neg_of_pos hs (mul_pos havg hp)
      calc p.net * p.avgEntry * (p.net * p.avgEntry)
          = p.net * p.avgEntry * ((p.net + signed side qty) * price) := by rw [heq]
        _ = p.net * (p.net + signed side qty) * (p.avgEntry * price) := by ring
        _ < 0 := this
    exact absurd (mul_self_nonneg _) (not_le.2 hneg)

end position

/-! ## The cash account -/

/-- How far one fill moves cash away from the realised pnl: by its notional, and on a flip by the
cost of the closed quantity less the notional of the opened one. -/
def Position.drift (p : Position) (side : Side) (qty price : ℚ) : ℚ :=
  let after := p.net + signed side qty
  if p.net * after < 0 then p.cost - after * price else -(signed side qty * price)

/-- Every fill drifts: a notional is not zero, and what a flip closes and what it opens add up. -/
theorem drift_ne_zero {p : Position} {side : Side} {qty price : ℚ} (h : p.Sound) (hq : 0 < qty)
    (hp : 0 < price) : p.drift side qty price ≠ 0 := by
  simp only [Position.drift]
  split
  · rename_i hs
    have hn : p.net ≠ 0 := left_ne_zero_of_mul hs.ne
    have hcost : 0 < p.net * p.cost := by
      rw [Position.cost, ← mul_assoc]
      exact mul_pos (mul_self_pos.2 hn) (h.avg hn)
    have hopen : p.net * (p.net + signed side qty) * price < 0 := mul_neg_of_neg_of_pos hs hp
    intro hz
    have hboth : p.net * (p.cost - (p.net + signed side qty) * price) = 0 := by rw [hz, mul_zero]
    linarith
  · exact neg_ne_zero.2 (mul_ne_zero (signed_ne_zero side hq) hp.ne')

def fillDrift (e : PortfolioEngine) : Op → ℚ
  | .fill symbol f => ((e.positions.lookup symbol).getD (.flat symbol)).drift f.side f.qty f.price
  | .mark _ _ | .markAll _ => 0

namespace PortfolioEngine

@[simp] theorem refreshPeak_cash (e : PortfolioEngine) : e.refreshPeak.cash = e.cash := by
  unfold refreshPeak; split <;> rfl

@[simp] theorem refreshPeak_positions (e : PortfolioEngine) :
    e.refreshPeak.positions = e.positions := by
  unfold refreshPeak; split <;> rfl

/-- Cash less all realised pnl. -/
def gap (e : PortfolioEngine) : ℚ := e.cash - sumValues (·.realisedPnl) e.positions

end PortfolioEngine

/-- Every position of the book is sound. -/
def AllSound (ps : HashMap String Position) : Prop :=
  ∀ symbol p, ps.lookup symbol = some p → p.Sound

section book
variable {ps : HashMap String Position}

theorem AllSound.getD (h : AllSound ps) (symbol : String) :
    ((ps.lookup symbol).getD (.flat symbol)).Sound := by
  cases hl : ps.lookup symbol with
  | none => exact sound_flat symbol
  | some p => exact h symbol p hl

theorem AllSound.insert (h : AllSound ps) (symbol : String) {p : Position} (hp : p.Sound) :
    AllSound (ps.insert symbol p) := by
  intro k q hq
  rw [lookup_insert_eq] at hq
  split at hq
  · exact Option.some.inj hq ▸ hp
  · exact h k q hq

theorem AllSound.mark (h : AllSound ps) (symbol : String) (price : ℚ) :
    AllSound (adjust (·.mark price) symbol ps) := by
  unfold adjust
  cases hl : ps.lookup symbol with
  | none => exact h
  | some p => exact h.insert symbol (sound_mark (h symbol p hl) price)

theorem mark_realisedPnl (p : Position) (price : ℚ) :
    (p.mark price).realisedPnl = p.realisedPnl := by
  simp only [Position.mark]
  split
  · rfl
  · split <;> rfl

theorem sum_realised_mark (ps : HashMap String Position) (symbol : String) (price : ℚ) :
    sumValues (·.realisedPnl) (adjust (·.mark price) symbol ps) =
      sumValues (·.realisedPnl) ps := by
  rw [sumValues_adjust]
  cases ps.lookup symbol <;> simp [mark_realisedPnl]

/-- Marking keeps the book sound and touches no realised pnl. -/
theorem markAll_book (prices : List (Sigma fun _ : String => ℚ)) (h : AllSound ps) :
    let ps' := prices.foldl (fun ps sp => adjust (·.mark sp.2) sp.1 ps) ps
    AllSound ps' ∧ sumValues (·.realisedPnl) ps' = sumValues (·.realisedPnl) ps := by
  induction prices generalizing ps with
  | nil => exact ⟨h, rfl⟩
  | cons sp prices ih =>
    obtain ⟨hs, hr⟩ := ih (h.mark sp.1 sp.2)
    exact ⟨hs, hr.trans (sum_realised_mark ps sp.1 sp.2)⟩

end book

namespace PortfolioEngine
variable {e : PortfolioEngine}

theorem sound_step {op : Op} (h : AllSound e.positions) (hop : op.Valid) :
    AllSound (e.step op).positions := by
  cases op with
  | fill symbol f =>
    simp only [step, applyFill, refreshPeak_positions]
    exact h.insert symbol (sound_applyFill (h.getD symbol) hop.1 hop.2)
  | mark symbol price =>
    simp only [step, mark, refreshPeak_positions]
    exact h.mark symbol price
  | markAll prices =>
    simp only [step, markAll, refreshPeak_positions]
    exact (markAll_book prices.entries h).1

/-- The share of one symbol, flat if it has no entry. -/
theorem getD_share {f : Position → ℚ} (symbol : String) (hf : f (.flat symbol) = 0) :
    ((e.positions.lookup symbol).map f).getD 0 =
      f ((e.positions.lookup symbol).getD (.flat symbol)) := by
  cases e.positions.lookup symbol <;> simp [hf]

/-- What `apply_fill` does to the sum of a figure over the positions. -/
theorem sum_applyFill {f : Position → ℚ} (hf : ∀ symbol, f (.flat symbol) = 0) (symbol : String)
    (side : Side) (qty price fee : ℚ) :
    sumValues f (e.applyFill symbol side qty price fee).positions =
      sumValues f e.positions +
        (f (((e.positions.lookup symbol).getD (.flat symbol)).applyFill side qty price fee).1 -
          f ((e.positions.lookup symbol).getD (.flat symbol))) := by
  simp only [applyFill, refreshPeak_positions, sumValues_insert, getD_share symbol (hf symbol)]
  ring

theorem applyFill_cash (symbol : String) (side : Side) (qty price fee : ℚ) :
    (e.applyFill symbol side qty price fee).cash = e.cash - signed side qty * price - fee := by
  simp only [applyFill, refreshPeak_cash]
  cases side <;> simp only [signed] <;> ring

/-- **One step moves the gap by its drift.** -/
theorem gap_step {op : Op} (h : AllSound e.positions) (hop : op.Valid) :
    (e.step op).gap = e.gap + fillDrift e op := by
  cases op with
  | fill symbol f =>
    obtain ⟨hq, -⟩ := hop
    have hok := (h.getD symbol).ok
    simp only [step, gap, fillDrift, applyFill_cash,
      sum_applyFill (f := (·.realisedPnl)) (fun _ => rfl), applyFill_realisedPnl hok hq,
      applyFill_snd, book_pnl hok hq, Position.drift, Position.cost]
    split <;> ring
  | mark symbol price =>
    simp only [step, gap, mark, refreshPeak_cash, refreshPeak_positions, sum_realised_mark,
      fillDrift, add_zero]
  | markAll prices =>
    simp only [step, gap, markAll, refreshPeak_cash, refreshPeak_positions, fillDrift, add_zero,
      (markAll_book prices.entries h).2]

/-- A fee-free fill at the last mark moves equity by the change of the position's cost. -/
theorem equity_fill_at_mark {symbol : String} {p : Position} {side : Side} {qty : ℚ}
    (h : AllSound e.positions) (hl : e.positions.lookup symbol = some p) (hm : 0 < p.lastMark)
    (hq : 0 < qty) :
    (e.applyFill symbol side qty p.lastMark 0).equity =
      e.equity - ((p.book side qty p.lastMark).1.cost - p.cost) := by
  have hs := h symbol p hl
  simp only [equity, applyFill_cash, sum_applyFill (f := (·.unrealisedPnl)) (fun _ => rfl), hl,
    Option.getD_some, applyFill_unrealisedPnl hs.ok hq, hs.unrealised, Position.markPnl, hm.ne',
    if_false, applyFill_net hs.ok hq, applyFill_avgEntry hs.ok hq, Position.cost,
    (book_net hs.ok hq _ _).2]
  ring

/-- The documented equity: the starting one and the pnl of all positions. -/
def EquityIdentity (startingEquity : ℚ) (e : PortfolioEngine) : Prop :=
  e.equity = startingEquity + sumValues (fun p => p.realisedPnl + p.unrealisedPnl) e.positions

theorem equityIdentity_iff_gap {startingEquity : ℚ} :
    EquityIdentity startingEquity e ↔ e.gap = startingEquity := by
  rw [EquityIdentity, sumValues_add, equity, gap]
  constructor <;> intro h <;> linarith

/-- **`equity_identity_iff`**: a run of fills and marks ends with the documented equity exactly
when the drifts of its fills cancel, and a fee-free fill at the last mark always moves equity. -/
theorem equity_identity_iff (startingEquity : ℚ) (now : DateTime) (ops : List Op)
    (hops : ∀ op ∈ ops, op.Valid) :
    let e := run step (new ⟨startingEquity⟩ now) ops
    (e.equity = startingEquity +
        sumValues (fun p => p.realisedPnl + p.unrealisedPnl) e.positions ↔
      total step fillDrift (new ⟨startingEquity⟩ now) ops = 0) ∧
    ∀ symbol p side qty, e.positions.lookup symbol = some p → 0 < p.lastMark → 0 < qty →
      (e.applyFill symbol side qty p.lastMark 0).equity ≠ e.equity := by
  intro e
  have hnew : AllSound (new ⟨startingEquity⟩ now).positions := by simp [AllSound, new]
  have hgap : e.gap = startingEquity + total step fillDrift (new ⟨startingEquity⟩ now) ops := by
    have h0 : (new ⟨startingEquity⟩ now).gap = startingEquity := by simp [gap, new]
    have h : (run step (new ⟨startingEquity⟩ now) ops).gap = (new ⟨startingEquity⟩ now).gap +
        total step fillDrift (new ⟨startingEquity⟩ now) ops :=
      measure_run (J := fun e => AllSound e.positions) (fun _ _ => sound_step)
        (fun _ _ => gap_step) hnew hops
    rwa [h0] at h
  have he : AllSound e.positions :=
    run_invariant (J := fun e : PortfolioEngine => AllSound e.positions) (fun _ _ => sound_step) hnew
      hops
  constructor
  · have hidentity : _ ↔ e.gap = startingEquity := equityIdentity_iff_gap
    rw [hgap, add_eq_left] at hidentity
    exact hidentity
  · intro symbol p side qty hl hm hq heq
    rw [equity_fill_at_mark he hl hm hq] at heq
    exact book_cost_ne (he symbol p hl) hq hm (by linarith)

/-- **Drifts cancel at most in passing**: in every state of a run equity is the documented one only
if the run never fills. -/
theorem equity_always_iff (startingEquity : ℚ) (now : DateTime) (ops : List Op)
    (hops : ∀ op ∈ ops, op.Valid) :
    AllStates step (EquityIdentity startingEquity) (new ⟨startingEquity⟩ now) ops ↔
      ∀ op ∈ ops, op.IsMark := by
  have hnew : AllSound (new ⟨startingEquity⟩ now).positions ∧
      EquityIdentity startingEquity (new ⟨startingEquity⟩ now) := by
    simp [AllSound, EquityIdentity, equity, new]
  have good : ∀ e op, AllSound e.positions ∧ EquityIdentity startingEquity e → op.Valid →
      op.IsMark → AllSound (e.step op).positions ∧ EquityIdentity startingEquity (e.step op) := by
    intro e op ⟨hs, hi⟩ hop hmark
    refine ⟨sound_step hs hop, ?_⟩
    rw [equityIdentity_iff_gap] at hi ⊢
    rw [gap_step hs hop, hi]
    cases op with
    | fill => exact hmark.elim
    | mark => exact add_zero _
    | markAll => exact add_zero _
  have bad : ∀ e op, AllSound e.positions ∧ EquityIdentity startingEquity e → op.Valid →
      ¬ op.IsMark → ¬ EquityIdentity startingEquity (e.step op) := by
    intro e op ⟨hs, hi⟩ hop hfill
    rw [equityIdentity_iff_gap] at hi ⊢
    rw [gap_step hs hop, hi, add_eq_left]
    cases op with
    | fill symbol f => exact drift_ne_zero (hs.getD symbol) hop.1 hop.2
    | mark => exact absurd trivial hfill
    | markAll => exact absurd trivial hfill
  exact (allStates_iff_allSteps (fun _ h => h.2) good bad hnew hops).trans allSteps_forall_iff

/-- Buying one unit at 100 takes the 100 out of equity. -/
theorem open_fill_loses_notional :
    let ops : List Op := [.fill "BTCUSDT" ⟨.long, 1, 100, 0⟩, .mark "BTCUSDT" 100]
    let e := run step (new ⟨1000⟩ 0) ops
    e.equity = 900 ∧
      1000 + sumValues (fun p => p.realisedPnl + p.unrealisedPnl) e.positions = 1000 := by
  decide +kernel

/-- Buying and selling the same notional leaves the documented equity; buying once more at the
last mark does not. -/
theorem equity_identity_round_trip :
    let ops : List Op :=
      [.fill "BTCUSDT" ⟨.long, 1, 100, 1⟩, .mark "BTCUSDT" 100, .fill "BTCUSDT" ⟨.short, 1, 100, 1⟩]
    let e := run step (new ⟨1000⟩ 0) ops
    e.equity = 1000 + sumValues (fun p => p.realisedPnl + p.unrealisedPnl) e.positions ∧
      (e.applyFill "BTCUSDT" .long 1 100 0).equity ≠ e.equity := by
  intro ops e
  have h := equity_identity_iff 1000 0 ops (by decide +kernel)
  refine ⟨h.1.2 (by decide +kernel), ?_⟩
  obtain ⟨p, hl, hm⟩ : ∃ p, e.positions.lookup "BTCUSDT" = some p ∧ p.lastMark = 100 :=
    ⟨⟨"BTCUSDT", none, 0, 0, -2, 0, 100⟩, by decide +kernel, rfl⟩
  exact hm ▸ h.2 "BTCUSDT" p .long 1 hl (by rw [hm]; decide +kernel) (by decide +kernel)

end PortfolioEngine

end Qtss.Portfolio
