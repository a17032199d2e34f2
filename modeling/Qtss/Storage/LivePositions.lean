import Qtss.Storage.SelectedCandidates
/-
# The table of positions (`qtss-storage/src/live_positions.rs`)

| here | there |
| --- | --- |
| `InsertLivePosition`, `LivePosition` | live_positions.rs:19, and the row; `PositionMetadata` is its JSON `metadata` |
| `insertLive`, `closeLive`            | `insert` (:71), `close` (:143) |

"Closed positions are retained for attribution": rows are added and closed, never removed.
-/

namespace Qtss.Storage

structure PositionMetadata where
  selectedCandidateId : ℕ
  setupId : Uuid
  timeframe : String
  riskPct : ℚ
  leverage : ℤ
  slipBpsApplied : ℚ
  entrySetup : ℚ
deriving DecidableEq

structure InsertLivePosition where
  orgId : Uuid
  userId : Uuid
  setupId : Option Uuid
  mode : Risk.ExecutionMode
  exchange : String
  segment : String
  symbol : String
  side : String
  leverage : ℤ
  entryAvg : ℚ
  qtyFilled : ℚ
  qtyRemaining : ℚ
  currentSl : Option ℚ
  tpLadder : TpLadder
  liquidationPrice : Option ℚ
  maintMarginRatio : Option ℚ
  lastMark : Option ℚ
  metadata : PositionMetadata
deriving DecidableEq

structure LivePosition extends InsertLivePosition where
  id : Uuid
  openedAt : DateTime
  closedAt : Option DateTime
  closeReason : Option String
deriving DecidableEq

abbrev PositionTable := List LivePosition

namespace PositionTable

def insertLive (t : PositionTable) (p : InsertLivePosition) (id : Uuid) (now : DateTime) : PositionTable :=
  t ++ [{ p with id := id, openedAt := now, closedAt := none, closeReason := none }]

/-- `WHERE id = $1 AND closed_at IS NULL`. -/
def closeLive (t : PositionTable) (id : Uuid) (reason : String) (now : DateTime) : PositionTable :=
  t.map fun p =>
    if p.id = id ∧ p.closedAt.isNone then { p with closedAt := some now, closeReason := some reason } else p

variable {t : PositionTable} {p : InsertLivePosition} {q : LivePosition} {id : Uuid} {now : DateTime}
  {reason : String}

theorem mem_insertLive : q ∈ t.insertLive p id now ↔
    q ∈ t ∨ q = { p with id := id, openedAt := now, closedAt := none, closeReason := none } := by
  simp [insertLive]

/-- Closing changes neither which positions there are nor what they were opened with. -/
theorem mem_closeLive (h : q ∈ t) : ∃ q' ∈ t.closeLive id reason now,
    q'.toInsertLivePosition = q.toInsertLivePosition ∧ q'.id = q.id := by
  refine ⟨_, List.mem_map.2 ⟨q, h, rfl⟩, ?_⟩
  split <;> exact ⟨rfl, rfl⟩

end PositionTable
end Qtss.Storage
