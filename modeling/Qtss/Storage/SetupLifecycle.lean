import Mathlib.Algebra.Order.Field.Rat
import Qtss.Domain
/-
# The setup row and its updates (`qtss-storage/src/setup_lifecycle.rs`)

| here | there |
| --- | --- |
| `SetupRow`           | the columns of `qtss_setups` that `WatcherSetupRow` (:56) reads and the updates write |
| `listed`             | the `WHERE` of `list_watcher_rows` (:80) |
| `applyRatchetUpdate`, `applyTrailEnable`, `applyTrailAdvance`, `markAiAdvised` | :268, :298, :330, :354 |
| `closeSetup`, `markEntryTouched`, `setTpHitBit` | :210, :237, :375 |
| `markRejected`       | `mark_setup_rejected` (execution_bridge.rs:114) |

`real`, `double precision` and `numeric` columns are exact rationals; `rawMeta` holds the numeric members
of the JSON object, `rejectedReason` its `rejected_reason`. `tp_hits_bitmap` is the 32-bit integer it is.
-/

namespace Qtss.Storage

/-- The `state` CHECK of migration 0240. -/
inductive SetupStateKind where
  | flat | armed | active | closed | closedWin | closedLoss | closedManual | closedPartialWin
  | closedScratch | rejected
deriving DecidableEq, Repr

structure SetupRow where
  id : Uuid
  createdAt : DateTime
  exchange : String
  symbol : String
  direction : String
  entryPrice : Option ℚ
  entrySl : Option ℚ
  koruma : Option ℚ
  currentSl : Option ℚ
  rawMeta : List (String × ℚ)
  rejectedReason : Option String
  entryTouchedAt : Option DateTime
  tpHitsBitmap : BitVec 32
  ratchetReferencePrice : Option ℚ
  ratchetCumulativePct : Option ℚ
  ratchetLastUpdateAt : Option DateTime
  trailMode : Bool
  trailAnchor : Option ℚ
  aiAdvisedTpIdx : Option ℤ
  aiAdvisedAt : Option DateTime
  state : SetupStateKind
  closedAt : Option DateTime
  closeReason : Option String
  closePrice : Option ℚ
  realizedPnlPct : Option ℚ
  realizedR : Option ℚ
deriving DecidableEq

namespace SetupRow

/-- `WHERE state IN ('armed','active') AND closed_at IS NULL`. -/
def listed (r : SetupRow) : Bool :=
  (r.state == .armed || r.state == .active) && r.closedAt.isNone

/-- "Reference + cumulative + last-update always move"; the stop moves when there is a new one. -/
def applyRatchetUpdate (newSl : Option ℚ) (reference cumulativePct : ℚ) (at_ : DateTime)
    (r : SetupRow) : SetupRow :=
  { r with
    currentSl := newSl <|> r.currentSl
    koruma := newSl <|> r.koruma
    ratchetReferencePrice := some reference
    ratchetCumulativePct := some cumulativePct
    ratchetLastUpdateAt := some at_ }

def applyTrailEnable (anchor newSl : ℚ) (tpIdx : ℕ) (at_ : DateTime) (r : SetupRow) : SetupRow :=
  { r with
    trailMode := true
    trailAnchor := some anchor
    currentSl := some newSl
    koruma := some newSl
    aiAdvisedTpIdx := some tpIdx
    aiAdvisedAt := some at_ }

/-- "Monotonic: caller must guarantee the SL only moves in the favourable direction". -/
def applyTrailAdvance (newAnchor newSl : ℚ) (r : SetupRow) : SetupRow :=
  { r with trailAnchor := some newAnchor, currentSl := some newSl, koruma := some newSl }

def markAiAdvised (tpIdx : ℕ) (at_ : DateTime) (r : SetupRow) : SetupRow :=
  { r with aiAdvisedTpIdx := some tpIdx, aiAdvisedAt := some at_ }

def markEntryTouched (at_ : DateTime) (r : SetupRow) : SetupRow :=
  { r with entryTouchedAt := r.entryTouchedAt <|> some at_ }

def setTpHitBit (tpIndex : ℕ) (r : SetupRow) : SetupRow :=
  { r with tpHitsBitmap := r.tpHitsBitmap ||| (1#32 <<< (tpIndex - 1)) }

/-- `WHERE id = $1 AND closed_at IS NULL`. -/
def closeSetup (reason : String) (price : ℚ) (pnlPct pnlR : Option ℚ) (now : DateTime)
    (r : SetupRow) : SetupRow :=
  if r.closedAt.isSome then r
  else { r with
    state := .closed
    closeReason := some reason
    closePrice := some price
    realizedPnlPct := pnlPct
    realizedR := pnlR
    closedAt := some now }

/-- "'cancelled' (the canonical \"never opened\" terminator)"; `WHERE id = $1 AND closed_at IS NULL`. -/
def markRejected (reason : String) (now : DateTime) (r : SetupRow) : SetupRow :=
  if r.closedAt.isSome then r
  else { r with
    state := .rejected
    closeReason := some "cancelled"
    closedAt := some now
    rejectedReason := some reason }

variable {reason : String} {price : ℚ} {pnlPct pnlR : Option ℚ} {now : DateTime} {r : SetupRow}

/-- Closing a setup leaves what the watcher reads of it alone. -/
@[simp] theorem closeSetup_currentSl :
    (r.closeSetup reason price pnlPct pnlR now).currentSl = r.currentSl := by
  unfold closeSetup; split <;> rfl

@[simp] theorem closeSetup_direction :
    (r.closeSetup reason price pnlPct pnlR now).direction = r.direction := by
  unfold closeSetup; split <;> rfl

@[simp] theorem closeSetup_tpHitsBitmap :
    (r.closeSetup reason price pnlPct pnlR now).tpHitsBitmap = r.tpHitsBitmap := by
  unfold closeSetup; split <;> rfl

@[simp] theorem closeSetup_closedAt :
    (r.closeSetup reason price pnlPct pnlR now).closedAt = (r.closedAt <|> some now) := by
  unfold closeSetup
  cases h : r.closedAt <;> simp [h]

end SetupRow
end Qtss.Storage
