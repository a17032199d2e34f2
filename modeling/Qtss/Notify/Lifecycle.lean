import Qtss.Lib.Scan
import Qtss.Notify.PozKoruma
import Qtss.Notify.SmartTarget
/-
# Setup lifecycle (`qtss-notify/src/lifecycle.rs`)

| here | there |
| --- | --- |
| `LifecycleEventKind` | lifecycle.rs:32; `isTerminal` :67, `closeReason` :76 |
| `WatcherSetupState`  | :96; `reached`, `reachedSl`, `tpHit`, `pnlPct` |
| `PriceTick`          | `price_tick.rs:25`, without the `update_id` that only the store compares |
| `detectTransitions`  | :157 |
| `LifecycleContext`, `makeContext` | :223, :286, what `DbPersistHandler` writes of it |
| `promoteTpHit`       | :320 |

The bitmap is the `u8` the watcher cuts out of the stored `i32`; level `n` of a decision is `tp_prices[n-1]`.
-/

namespace Qtss.Notify

inductive LifecycleEventKind where
  | entryTouched | tpHit | tpPartial | tpFinal | slHit | trailStop | slRatcheted | invalidated
  | cancelled | healthWarn | healthDanger
deriving DecidableEq, Repr

def LifecycleEventKind.asDbStr : LifecycleEventKind → String
  | .entryTouched => "entry_touched"
  | .tpHit => "tp_hit"
  | .tpPartial => "tp_partial"
  | .tpFinal => "tp_final"
  | .slHit => "sl_hit"
  | .trailStop => "trail_stop"
  | .slRatcheted => "sl_ratcheted"
  | .invalidated => "invalidated"
  | .cancelled => "cancelled"
  | .healthWarn => "health_warn"
  | .healthDanger => "health_danger"

/-- "Terminal events end the setup and trigger close accounting." -/
def LifecycleEventKind.isTerminal : LifecycleEventKind → Bool
  | .tpFinal | .slHit | .trailStop | .invalidated | .cancelled => true
  | _ => false

def LifecycleEventKind.closeReason : LifecycleEventKind → Option String
  | .tpFinal => some "tp_final"
  | .slHit => some "sl_hit"
  | .trailStop => some "trail_stop"
  | .invalidated => some "invalidated"
  | .cancelled => some "cancelled"
  | _ => none

/-- The terminal kinds are those with a close reason, and it is the kind's own name. -/
theorem closeReason_eq (k : LifecycleEventKind) :
    k.closeReason = if k.isTerminal then some k.asDbStr else none := by
  cases k <;> rfl

structure PriceTick where
  bid : ℚ
  ask : ℚ
  receivedAt : DateTime
deriving DecidableEq

def PriceTick.mid (t : PriceTick) : ℚ := (t.bid + t.ask) / 2

/-- "Milliseconds since receive." -/
def PriceTick.ageMs (t : PriceTick) (now : DateTime) : ℤ := max ((now - t.receivedAt) * 1000) 0

structure WatcherSetupState where
  setupId : Uuid
  exchange : String
  symbol : String
  direction : SetupDirection
  entryPrice : ℚ
  currentSl : ℚ
  tpPrices : List (Option ℚ)
  tpHitsBitmap : BitVec 8
  entryTouched : Bool
  openedAt : DateTime
deriving DecidableEq

namespace WatcherSetupState

def tpHit (s : WatcherSetupState) (idxZeroBased : ℕ) : Bool := s.tpHitsBitmap.getLsbD idxZeroBased

/-- "Direction-aware 'did the price reach/exceed `target`?'". -/
def reached (s : WatcherSetupState) (price target : ℚ) : Bool :=
  match s.direction with
  | .long => Decidable.decide (price ≥ target)
  | .short => Decidable.decide (price ≤ target)

def reachedSl (s : WatcherSetupState) (price : ℚ) : Bool :=
  match s.direction with
  | .long => Decidable.decide (price ≤ s.currentSl)
  | .short => Decidable.decide (price ≥ s.currentSl)

def pnlPct (s : WatcherSetupState) (price : ℚ) : Option ℚ :=
  if |s.entryPrice| < 1 / 10 ^ 12 then some 0
  else
    let raw := (price - s.entryPrice) / s.entryPrice * 100
    match s.direction with
    | .long => some raw
    | .short => some (-raw)

/-- The loop body of lifecycle.rs:190. -/
def dueLevel (s : WatcherSetupState) (price : ℚ) : Option ℚ × ℕ → Option ℕ
  | (none, _) => none
  | (some tp, i) =>
    if s.tpHit i then none
    else if s.reached price tp then some (i + 1)
    else none

/-- The levels that are newly reached. -/
def dueLevels (s : WatcherSetupState) (price : ℚ) : List ℕ :=
  s.tpPrices.zipIdx.filterMap (s.dueLevel price)

def totalTps (s : WatcherSetupState) : ℕ := (s.tpPrices.filter Option.isSome).length

end WatcherSetupState

structure LifecycleDecision where
  kind : LifecycleEventKind
  tpIndex : Option ℕ
  price : ℚ
deriving DecidableEq

/-- lifecycle.rs:157. The stop fires alone: "if the tick crossed both, the stop-first convention is
safer for the user". -/
def detectTransitions (state : WatcherSetupState) (tick : PriceTick) : List LifecycleDecision :=
  let price := tick.mid
  let entry : List LifecycleDecision :=
    if !state.entryTouched && state.reached price state.entryPrice then
      [⟨.entryTouched, none, price⟩]
    else []
  if state.reachedSl price then entry ++ [⟨.slHit, none, price⟩]
  else entry ++ (state.dueLevels price).map fun n => ⟨.tpHit, some n, price⟩

structure LifecycleContext where
  setupId : Uuid
  kind : LifecycleEventKind
  price : ℚ
  tpIndex : Option ℕ
  pnlPct : Option ℚ
  pnlR : Option ℚ
  health : Option HealthScore
  durationMs : Option ℤ
  emittedAt : DateTime
  aiAction : Option String
  aiReasoning : Option Text
  aiConfidence : Option ℚ
deriving DecidableEq

/-- lifecycle.rs:286. -/
def makeContext (state : WatcherSetupState) (decision : LifecycleDecision)
    (health : Option HealthScore) (now : DateTime) : LifecycleContext where
  setupId := state.setupId
  kind := decision.kind
  price := decision.price
  tpIndex := decision.tpIndex
  pnlPct := state.pnlPct decision.price
  pnlR := none
  health := health
  durationMs := some (max ((now - state.openedAt) * 1000) 0)
  emittedAt := now
  aiAction := none
  aiReasoning := none
  aiConfidence := none

/-- lifecycle.rs:320. -/
def promoteTpHit (state : WatcherSetupState) (decision : LifecycleDecision) : LifecycleDecision :=
  if decision.kind ≠ .tpHit then decision
  else
    match decision.tpIndex with
    | none => decision
    | some idx =>
      let hasHigher := (state.tpPrices.drop idx).any Option.isSome
      { decision with kind := if hasHigher then .tpPartial else .tpFinal }

/-! ## What the detector reports -/

variable {s : WatcherSetupState} {price : ℚ} {n : ℕ}

theorem dueLevel_eq_some {maybeTp : Option ℚ} {i : ℕ} :
    s.dueLevel price (maybeTp, i) = some n ↔
      ∃ tp, maybeTp = some tp ∧ n = i + 1 ∧ s.tpHit i = false ∧ s.reached price tp = true := by
  cases maybeTp with
  | none => simp [WatcherSetupState.dueLevel]
  | some tp =>
    simp only [WatcherSetupState.dueLevel]
    by_cases hhit : s.tpHit i
    · simp [hhit]
    · by_cases hreached : s.reached price tp
      · simp [hhit, hreached, eq_comm (a := n)]
      · simp [hhit, hreached]

/-- "The detector is order-preserving": the due levels come in increasing order. -/
theorem dueLevels_pairwise (s : WatcherSetupState) (price : ℚ) :
    (s.dueLevels price).Pairwise (· < ·) := by
  apply Scan.pairwise_filterMap_zipIdx
  rintro ⟨p, i⟩ ⟨q, j⟩ n m hij hn hm
  obtain ⟨-, -, rfl, -⟩ := dueLevel_eq_some.1 hn
  obtain ⟨-, -, rfl, -⟩ := dueLevel_eq_some.1 hm
  exact Nat.add_lt_add_right hij 1

theorem dueLevels_nodup (s : WatcherSetupState) (price : ℚ) : (s.dueLevels price).Nodup :=
  (dueLevels_pairwise s price).imp fun h => Nat.ne_of_lt h

/-- A due level is one of the levels, reached by the price, with its bit unset. -/
theorem mem_dueLevels : n ∈ s.dueLevels price ↔
    ∃ i tp, n = i + 1 ∧ s.tpPrices[i]? = some (some tp) ∧ s.tpHit i = false
      ∧ s.reached price tp = true := by
  simp only [WatcherSetupState.dueLevels, List.mem_filterMap, Prod.exists, List.mem_zipIdx_iff_getElem?]
  constructor
  · rintro ⟨maybeTp, i, hget, hdue⟩
    obtain ⟨tp, rfl, hn, hhit, hreached⟩ := dueLevel_eq_some.1 hdue
    exact ⟨i, tp, hn, hget, hhit, hreached⟩
  · rintro ⟨i, tp, hn, hget, hhit, hreached⟩
    exact ⟨some tp, i, hget, dueLevel_eq_some.2 ⟨tp, rfl, hn, hhit, hreached⟩⟩

end Qtss.Notify
