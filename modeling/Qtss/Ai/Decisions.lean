import Mathlib.Data.List.Basic
import Mathlib.Logic.Function.Basic
/-
# AI decisions and their children (`qtss-ai/src/storage.rs`, `approval.rs`)

| here | there |
| --- | --- |
| `DecisionStatus`, `ChildStatus` | the `CHECK`s of migrations/0001_qtss_baseline.sql:1471 and 0011; `active` is a legacy status of a portfolio directive |
| `Child`            | a row of `ai_tactical_decisions`, `ai_position_directives` or `ai_portfolio_directives` |
| `approval`         | the four UPDATEs of `maybe_auto_approve` (approval.rs:628-665) and of `admin_approve_ai_decision` (storage.rs:740) |
| `rejection`        | `admin_reject_ai_decision`, storage.rs:789 |
| `expiry`           | `expire_stale_decisions`, storage.rs:491 |
| `Mark`             | `mark_applied` (storage.rs:394) and `mark_tactical_execution_failed` (:467) |
| `Op.insertDecision`, `insertChild` | storage.rs:64, :206, :258, :306 |

A row's id is its place in its table. A statement of a transaction takes the locks of the rows it changes, which others
see changed when it commits; a statement that meets a row with a lock of another transaction waits. The statements of a
mark commit one by one.
-/

namespace Qtss.Ai

inductive DecisionStatus where
  | pendingApproval | approved | applied | rejected | expired | error
deriving DecidableEq, Repr

inductive ChildStatus where
  | pendingApproval | active | approved | applied | rejected | expired | executionFailed
deriving DecidableEq, Repr

inductive AiRecordTable where
  | tacticalChild | positionDirectiveChild | portfolioDirectiveChild
deriving DecidableEq, Repr

structure Child where
  table : AiRecordTable
  decision : ℕ
  status : ChildStatus
deriving DecidableEq

/-- What is committed. -/
structure Tables where
  decisions : List DecisionStatus
  children : List Child

/-- The statuses a transaction sets, and those it finds a portfolio directive in; the other children it finds in
`pending_approval`. -/
structure Verdict where
  toDecision : DecisionStatus
  toChild : ChildStatus
  fromPortfolio : List ChildStatus

def approval : Verdict := ⟨.approved, .approved, [.pendingApproval, .active]⟩

def rejection : Verdict := ⟨.rejected, .rejected, [.pendingApproval, .active, .approved]⟩

def expiry : Verdict := ⟨.expired, .expired, [.pendingApproval, .active, .approved]⟩

/-- The statuses a mark sets. -/
structure Mark where
  toChild : ChildStatus
  toDecision : DecisionStatus

def applied : Mark := ⟨.applied, .applied⟩

def executionFailed : Mark := ⟨.executionFailed, .error⟩

inductive Call where
  | maybeAutoApprove (decision : ℕ)
  | adminApprove (decision : ℕ)
  | adminReject (decision : ℕ)
  /-- The decisions past their `expires_at`. -/
  | expireStale (stale : ℕ → Bool)
  | markApplied (child : ℕ)
  | markTacticalExecutionFailed (child : ℕ)

/-- How far a call is. -/
structure Progress where
  statement : ℕ
  /-- The `decision_id` a mark has selected. -/
  selected : Option ℕ
  /-- The decisions and the children a transaction has changed, not committed yet. -/
  parents : List ℕ
  rows : List ℕ

def Progress.start : Progress := ⟨0, none, [], []⟩

structure Sys where
  tables : Tables
  decisionLock : ℕ → Option ℕ
  childLock : ℕ → Option ℕ
  progress : ℕ → Progress

def Sys.start : Sys := ⟨⟨[], []⟩, fun _ => none, fun _ => none, fun _ => .start⟩

namespace Sys

def setProgress (s : Sys) (i : ℕ) (p : Progress) : Sys := { s with progress := Function.update s.progress i p }

/-- The end of a call: its locks are free, its changes are committed or lost. -/
def finish (s : Sys) (i : ℕ) : Sys :=
  { s with
    decisionLock := fun d => if s.decisionLock d = some i then none else s.decisionLock d
    childLock := fun r => if s.childLock r = some i then none else s.childLock r }.setProgress i ⟨5, none, [], []⟩

/-- Another transaction has changed the row. -/
def lockedByOther (lock : ℕ → Option ℕ) (i : ℕ) (row : ℕ) : Bool := (lock row).isSome && lock row ≠ some i

def take (lock : ℕ → Option ℕ) (i : ℕ) (rows : List ℕ) : ℕ → Option ℕ := fun row => if row ∈ rows then some i else lock row

/-! ## A transaction -/

/-- `UPDATE ai_decisions … WHERE status = 'pending_approval'`, for the decisions named. -/
def matchedDecisions (t : Tables) (named : ℕ → Bool) : List ℕ :=
  (List.range t.decisions.length).filter fun d => named d && t.decisions[d]? = some .pendingApproval

/-- The UPDATE of a child table, for the children of the decisions named. -/
def matchedChildren (t : Tables) (verdict : Verdict) (table : AiRecordTable) (named : ℕ → Bool) : List ℕ :=
  (List.range t.children.length).filter fun r => t.children[r]?.any fun c =>
    c.table = table && named c.decision &&
      (match table with
        | .portfolioDirectiveChild => verdict.fromPortfolio.contains c.status
        | _ => c.status = .pendingApproval)

def updateDecisions (s : Sys) (i : ℕ) (named : ℕ → Bool) : Sys :=
  let found := matchedDecisions s.tables named
  if found.any (lockedByOther s.decisionLock i) then s
  else
    { s with decisionLock := take s.decisionLock i found }.setProgress i
      { s.progress i with statement := 1, parents := found }

def updateChildren (s : Sys) (i : ℕ) (verdict : Verdict) (table : AiRecordTable) (named : ℕ → Bool) : Sys :=
  let found := matchedChildren s.tables verdict table named
  if found.any (lockedByOther s.childLock i) then s
  else
    { s with childLock := take s.childLock i found }.setProgress i
      { s.progress i with statement := (s.progress i).statement + 1, rows := (s.progress i).rows ++ found }

/-- The tables with the changes. -/
def committed (t : Tables) (verdict : Verdict) (p : Progress) : Tables where
  decisions := t.decisions.mapIdx fun d status => if d ∈ p.parents then verdict.toDecision else status
  children := t.children.mapIdx fun r c => if r ∈ p.rows then { c with status := verdict.toChild } else c

/-- The next statement. `expire_stale_decisions` names the children by the ids its first statement returns. -/
def transaction (s : Sys) (i : ℕ) (verdict : Verdict) (named : ℕ → Bool) (returning : Bool) : Sys :=
  let p := s.progress i
  let named' := if returning then fun d => p.parents.contains d else named
  match p.statement with
  | 0 => s.updateDecisions i named
  | 1 => s.updateChildren i verdict .tacticalChild named'
  | 2 => s.updateChildren i verdict .positionDirectiveChild named'
  | 3 => s.updateChildren i verdict .portfolioDirectiveChild named'
  | 4 => { s with tables := committed s.tables verdict p }.finish i
  | _ => s

/-! ## A mark -/

def mark (s : Sys) (i : ℕ) (m : Mark) (tables : List AiRecordTable) (child : ℕ) : Sys :=
  let p := s.progress i
  match p.statement with
  | 0 =>
    match s.tables.children[child]? with
    | some c => if c.table ∈ tables then s.setProgress i { p with statement := 1, selected := some c.decision } else s.finish i
    | none => s.finish i
  | 1 =>
    if (s.childLock child).isSome then s
    else
      { s with tables.children := s.tables.children.modify child fun c => { c with status := m.toChild } }.setProgress i
        { p with statement := 2 }
  | 2 =>
    match p.selected with
    | some d =>
      if (s.decisionLock d).isSome then s
      else { s with tables.decisions := s.tables.decisions.set d m.toDecision }.finish i
    | none => s
  | _ => s

end Sys

inductive Op where
  | insertDecision
  | insertChild (table : AiRecordTable) (decision : ℕ)
  /-- The next statement of a call. -/
  | next (call : ℕ)
  /-- An error, or a crash. -/
  | fail (call : ℕ)

def Sys.next (calls : ℕ → Call) (s : Sys) (i : ℕ) : Sys :=
  match calls i with
  | .maybeAutoApprove decision | .adminApprove decision => s.transaction i approval (· = decision) false
  | .adminReject decision => s.transaction i rejection (· = decision) false
  | .expireStale stale => s.transaction i expiry stale true
  | .markApplied child =>
    s.mark i applied [.tacticalChild, .positionDirectiveChild, .portfolioDirectiveChild] child
  | .markTacticalExecutionFailed child => s.mark i executionFailed [.tacticalChild] child

def step (calls : ℕ → Call) (s : Sys) : Op → Sys
  | .insertDecision => { s with tables.decisions := s.tables.decisions ++ [.pendingApproval] }
  | .insertChild table decision =>
    if decision < s.tables.decisions.length then
      { s with tables.children := s.tables.children ++ [⟨table, decision, .pendingApproval⟩] }
    else s
  | .next i => s.next calls i
  | .fail i => s.finish i

end Qtss.Ai
