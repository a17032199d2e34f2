import Qtss.Ai.Decisions
import Qtss.Lib.Runs
/-
# A child and its decision

A transaction changes the children whether or not its first statement changed the decision, and a mark sets the decision
whatever the other children are. `InStep` is what a step has to meet for the statuses to go on agreeing; a step that does
not meet it breaks them at once.
-/

namespace Qtss.Ai
open Runs

variable {calls : ℕ → Call} {s : Sys} {t : Tables} {verdict : Verdict} {m : Mark} {p : Progress} {i j d : ℕ}
  {status : ChildStatus} {parent : Option DecisionStatus} {named : ℕ → Bool}

/-- Approved under an approved or applied decision only, rejected under a rejected one only. -/
def Suits (status : ChildStatus) (parent : Option DecisionStatus) : Prop :=
  (status = .approved → parent = some .approved ∨ parent = some .applied) ∧ (status = .rejected → parent = some .rejected)

def Agree (t : Tables) : Prop := ∀ c ∈ t.children, Suits c.status t.decisions[c.decision]?

instance : Decidable (Suits status parent) := inferInstanceAs (Decidable (_ ∧ _))

instance : Decidable (Agree t) := inferInstanceAs (Decidable (∀ c ∈ t.children, _))

/-- The condition of a commit: each child changed belongs to a decision changed with it, or to one that has the status
already. -/
def CommitInStep (s : Sys) (i : ℕ) (verdict : Verdict) : Prop :=
  (s.progress i).statement = 4 → ∀ r ∈ (s.progress i).rows, ∀ c ∈ s.tables.children[r]?,
    c.decision ∈ (s.progress i).parents ∨ Suits verdict.toChild s.tables.decisions[c.decision]?

/-- The condition of the last statement of a mark: no child of the decision is left in a status the mark does not
suit. -/
def MarkInStep (s : Sys) (i : ℕ) (m : Mark) : Prop :=
  (s.progress i).statement = 2 → ∀ d ∈ (s.progress i).selected, s.decisionLock d = none →
    ∀ c ∈ s.tables.children, c.decision = d → Suits c.status (some m.toDecision)

def InStep (calls : ℕ → Call) (s : Sys) : Op → Prop
  | .next i =>
    match calls i with
    | .maybeAutoApprove _ | .adminApprove _ => CommitInStep s i approval
    | .adminReject _ => CommitInStep s i rejection
    | .expireStale _ => True
    | .markApplied _ => MarkInStep s i applied
    | .markTacticalExecutionFailed _ => MarkInStep s i executionFailed
  | _ => True

/-! ## The tables -/

theorem Suits.of_none (h : Suits status none) : Suits status parent := by
  constructor <;> intro hs
  · simpa using h.1 hs
  · simpa using h.2 hs

theorem Suits.of_pending (h : Suits status (some .pendingApproval)) : Suits status parent := by
  constructor <;> intro hs
  · simpa using h.1 hs
  · simpa using h.2 hs

theorem agree_iff : Agree t ↔ ∀ (r : ℕ) (c : Child), t.children[r]? = some c → Suits c.status t.decisions[c.decision]? := by
  simp only [Agree, List.mem_iff_getElem?, forall_exists_index]
  exact ⟨fun h r c hc => h c r hc, fun h c r hc => h r c hc⟩

theorem getElem?_decisions_committed (d : ℕ) : (Sys.committed t verdict p).decisions[d]? =
    if d ∈ p.parents then t.decisions[d]?.map fun _ => verdict.toDecision else t.decisions[d]? := by
  rw [Sys.committed, List.getElem?_mapIdx]
  split
  · rfl
  · exact Option.map_id'

/-- **A commit.** -/
theorem agree_committed (h : Agree t) (hpending : ∀ d ∈ p.parents, t.decisions[d]? = some .pendingApproval)
    (hverdict : Suits verdict.toChild (some verdict.toDecision)) : Agree (Sys.committed t verdict p) ↔
      ∀ r ∈ p.rows, ∀ c ∈ t.children[r]?, c.decision ∈ p.parents ∨ Suits verdict.toChild t.decisions[c.decision]? := by
  have hget : ∀ r, (Sys.committed t verdict p).children[r]? =
      t.children[r]?.map fun c => if r ∈ p.rows then { c with status := verdict.toChild } else c := by
    intro r
    rw [Sys.committed, List.getElem?_mapIdx]
  rw [agree_iff]
  constructor
  · intro hagree r hr c hc
    by_cases hd : c.decision ∈ p.parents
    · exact .inl hd
    · have hsuits := hagree r { c with status := verdict.toChild } (by rw [hget, hc, Option.map_some, if_pos hr])
      rw [getElem?_decisions_committed, if_neg hd] at hsuits
      exact .inr hsuits
  · intro hrows r c' hc'
    rw [hget] at hc'
    obtain ⟨c, hc, rfl⟩ := Option.map_eq_some_iff.1 hc'
    have hbefore := agree_iff.1 h r c hc
    by_cases hr : r ∈ p.rows
    · rw [if_pos hr, getElem?_decisions_committed]
      by_cases hd : c.decision ∈ p.parents
      · rw [if_pos hd, hpending _ hd]
        exact hverdict
      · rw [if_neg hd]
        exact (hrows r hr c hc).resolve_left hd
    · rw [if_neg hr, getElem?_decisions_committed]
      split
      next hd =>
        rw [hpending _ hd] at hbefore
        exact hbefore.of_pending
      next => exact hbefore

/-- **A decision marked.** -/
theorem agree_set (h : Agree t) (status : DecisionStatus) : Agree { t with decisions := t.decisions.set d status } ↔
    ∀ c ∈ t.children, c.decision = d → Suits c.status (some status) := by
  constructor
  · rintro hagree c hc rfl
    have hsuits := hagree c hc
    rw [List.getElem?_set_self'] at hsuits
    cases hd : t.decisions[c.decision]? with
    | none =>
      have hbefore := h c hc
      rw [hd] at hbefore
      exact hbefore.of_none
    | some old => simpa [hd] using hsuits
  · intro hmark c hc
    by_cases hd : c.decision = d
    · subst hd
      rw [List.getElem?_set_self']
      cases hget : t.decisions[c.decision]? with
      | none =>
        have hbefore := h c hc
        rw [hget] at hbefore
        exact hbefore.of_none
      | some old => simpa using hmark c hc rfl
    · rw [List.getElem?_set_ne (Ne.symm hd)]
      exact h c hc

theorem agree_modify (h : Agree t) (child : ℕ) (hstatus : ∀ parent, Suits status parent) :
    Agree { t with children := t.children.modify child fun c => { c with status := status } } := by
  rw [agree_iff]
  intro r c hc
  rw [List.getElem?_modify] at hc
  obtain ⟨old, hold, rfl⟩ := Option.map_eq_some_iff.1 hc
  split
  · exact hstatus _
  · exact agree_iff.1 h r old hold

theorem agree_append_decision (h : Agree t) (status : DecisionStatus) :
    Agree { t with decisions := t.decisions ++ [status] } := by
  intro c hc
  have hbefore := h c hc
  rw [List.getElem?_append]
  split
  · exact hbefore
  next hlen =>
    rw [List.getElem?_eq_none (Nat.le_of_not_lt hlen)] at hbefore
    exact hbefore.of_none

theorem agree_append_child (h : Agree t) {c : Child} (hc : c.status = .pendingApproval) :
    Agree { t with children := t.children ++ [c] } := by
  intro c' hc'
  rcases List.mem_append.1 hc' with hc' | hc'
  · exact h c' hc'
  · rw [List.mem_singleton.1 hc', hc]
    exact ⟨by simp, by simp⟩

/-! ## The locks -/

/-- A decision that a transaction has changed is locked by it, and pending for the others. -/
def Held (s : Sys) : Prop :=
  ∀ i, ∀ d ∈ (s.progress i).parents, s.decisionLock d = some i ∧ s.tables.decisions[d]? = some .pendingApproval

@[simp] theorem progress_setProgress_self (s : Sys) (i : ℕ) (p : Progress) : (s.setProgress i p).progress i = p := by
  simp [Sys.setProgress]

theorem progress_setProgress_of_ne (s : Sys) (p : Progress) (h : j ≠ i) :
    (s.setProgress i p).progress j = s.progress j := by
  simp [Sys.setProgress, h]

/-- A call goes on without a change of its decisions. -/
theorem Held.setProgress (h : Held s) (hp : ∀ d ∈ p.parents, d ∈ (s.progress i).parents) : Held (s.setProgress i p) := by
  intro j d hd
  by_cases hj : j = i
  · subst hj
    rw [progress_setProgress_self] at hd
    exact h j d (hp d hd)
  · rw [progress_setProgress_of_ne _ _ hj] at hd
    exact h j d hd

/-- Rows that the others hold stay as they are. -/
theorem Held.finish_tables (h : Held s) (i : ℕ) (tables : Tables)
    (htables : ∀ d, (∀ j, j ≠ i → s.decisionLock d = some j → s.tables.decisions[d]? = some .pendingApproval →
      tables.decisions[d]? = some .pendingApproval)) : Held ({ s with tables := tables }.finish i) := by
  intro j d hd
  by_cases hj : j = i
  · subst hj
    simp [Sys.finish] at hd
  · rw [Sys.finish, progress_setProgress_of_ne _ _ hj] at hd
    obtain ⟨hlock, hpending⟩ := h j d hd
    have hne : s.decisionLock d ≠ some i := by
      rw [hlock]
      exact fun heq => hj (Option.some.inj heq)
    exact ⟨(if_neg hne).trans hlock, htables d j hj hlock hpending⟩

theorem Held.finish (h : Held s) (i : ℕ) : Held (s.finish i) :=
  h.finish_tables i s.tables fun _ _ _ _ hpending => hpending

theorem mem_matchedDecisions (hd : d ∈ Sys.matchedDecisions t named) : t.decisions[d]? = some .pendingApproval := by
  have hfound := (List.mem_filter.1 hd).2
  simp only [Bool.and_eq_true, decide_eq_true_eq] at hfound
  exact hfound.2

theorem held_updateDecisions (h : Held s) : Held (s.updateDecisions i named) := by
  unfold Sys.updateDecisions
  simp only
  split
  · exact h
  next hfree =>
    intro j d hd
    by_cases hj : j = i
    · subst hj
      rw [progress_setProgress_self] at hd
      exact ⟨if_pos hd, mem_matchedDecisions hd⟩
    · rw [progress_setProgress_of_ne _ _ hj] at hd
      obtain ⟨hlock, hpending⟩ := h j d hd
      have hnot : d ∉ Sys.matchedDecisions s.tables named := by
        intro hmem
        refine hfree (List.any_eq_true.2 ⟨d, hmem, ?_⟩)
        simp [Sys.lockedByOther, hlock, hj]
      exact ⟨(if_neg hnot).trans hlock, hpending⟩

theorem held_updateChildren (h : Held s) (table : AiRecordTable) : Held (s.updateChildren i verdict table named) := by
  unfold Sys.updateChildren
  simp only
  split
  · exact h
  · exact Held.setProgress (s := { s with childLock := _ }) h fun d hd => hd

theorem held_commit (h : Held s) :
    Held ({ s with tables := Sys.committed s.tables verdict (s.progress i) }.finish i) := by
  refine h.finish_tables i _ fun d j hj hlock hpending => ?_
  have hnot : d ∉ (s.progress i).parents := by
    intro hmem
    have hmine := (h i d hmem).1
    rw [hlock] at hmine
    exact hj (Option.some.inj hmine)
  rw [getElem?_decisions_committed, if_neg hnot, hpending]

/-- Rows of the tables change while a call goes on, without a change of a decision others hold. -/
theorem Held.of_tables (h : Held s) (tables : Tables) (htables : ∀ d, s.decisionLock d ≠ none →
    s.tables.decisions[d]? = some .pendingApproval → tables.decisions[d]? = some .pendingApproval) :
    Held { s with tables := tables } := by
  intro j d hd
  obtain ⟨hlock, hpending⟩ := h j d hd
  exact ⟨hlock, htables d (by simp [hlock]) hpending⟩

theorem held_transaction (h : Held s) (returning : Bool) : Held (s.transaction i verdict named returning) := by
  unfold Sys.transaction
  simp only
  split
  · exact held_updateDecisions h
  · exact held_updateChildren h _
  · exact held_updateChildren h _
  · exact held_updateChildren h _
  · exact held_commit h
  · exact h

theorem held_mark (h : Held s) (tables : List AiRecordTable) (child : ℕ) : Held (s.mark i m tables child) := by
  unfold Sys.mark
  simp only
  split
  · split
    · split
      · exact h.setProgress fun d hd => hd
      · exact h.finish i
    · exact h.finish i
  · split
    · exact h
    · exact Held.setProgress (s := { s with tables.children := _ }) h fun d hd => hd
  · split
    next selected _ =>
      split
      · exact h
      next hfree =>
        refine Held.finish (h.of_tables _ fun d hlock hpending => ?_) i
        have hne : selected ≠ d := by
          rintro rfl
          exact hfree (Option.isSome_iff_ne_none.2 hlock)
        rw [List.getElem?_set_ne hne, hpending]
    · exact h
  · exact h

theorem held_step (h : Held s) (op : Op) : Held (step calls s op) := by
  cases op with
  | insertDecision =>
    refine h.of_tables _ fun d _ hpending => ?_
    rw [List.getElem?_append_left (List.getElem?_eq_some_iff.1 hpending).1, hpending]
  | insertChild table decision =>
    simp only [step]
    split
    · exact h.of_tables _ fun d _ hpending => hpending
    · exact h
  | next i =>
    simp only [step, Sys.next]
    split
    · exact held_transaction h _
    · exact held_transaction h _
    · exact held_transaction h _
    · exact held_transaction h _
    · exact held_mark h _ _
    · exact held_mark h _ _
  | fail i => exact h.finish i

/-! ## A step -/

@[simp] theorem tables_setProgress (s : Sys) (i : ℕ) (p : Progress) : (s.setProgress i p).tables = s.tables := rfl

@[simp] theorem tables_finish (s : Sys) (i : ℕ) : (s.finish i).tables = s.tables := rfl

theorem tables_updateDecisions (s : Sys) (i : ℕ) : (s.updateDecisions i named).tables = s.tables := by
  unfold Sys.updateDecisions
  simp only
  split <;> rfl

theorem tables_updateChildren (s : Sys) (i : ℕ) (table : AiRecordTable) :
    (s.updateChildren i verdict table named).tables = s.tables := by
  unfold Sys.updateChildren
  simp only
  split <;> rfl

/-- Only its commit changes the tables. -/
theorem tables_transaction (s : Sys) (i : ℕ) (verdict : Verdict) (named : ℕ → Bool) (returning : Bool) :
    (s.transaction i verdict named returning).tables =
      if (s.progress i).statement = 4 then Sys.committed s.tables verdict (s.progress i) else s.tables := by
  unfold Sys.transaction
  simp only
  split
  next h0 => rw [tables_updateDecisions, if_neg (by omega)]
  next h1 => rw [tables_updateChildren, if_neg (by omega)]
  next h2 => rw [tables_updateChildren, if_neg (by omega)]
  next h3 => rw [tables_updateChildren, if_neg (by omega)]
  next h4 => rw [tables_finish, if_pos h4]
  next h4 => rw [if_neg h4]

theorem agree_transaction (hagree : Agree s.tables) (hheld : Held s)
    (hverdict : Suits verdict.toChild (some verdict.toDecision)) (named : ℕ → Bool) (returning : Bool) :
    Agree (s.transaction i verdict named returning).tables ↔ CommitInStep s i verdict := by
  rw [tables_transaction]
  split
  next h4 =>
    rw [agree_committed hagree (fun d hd => (hheld i d hd).2) hverdict]
    exact ⟨fun h _ => h, fun h => h h4⟩
  next h4 => exact ⟨fun _ hcommit => absurd hcommit h4, fun _ => hagree⟩

theorem agree_mark (hagree : Agree s.tables) (hmark : ∀ parent, Suits m.toChild parent) (tables : List AiRecordTable)
    (child : ℕ) : Agree (s.mark i m tables child).tables ↔ MarkInStep s i m := by
  have hnot : (s.progress i).statement ≠ 2 → MarkInStep s i m := fun hne h2 => absurd h2 hne
  unfold Sys.mark
  simp only
  split
  next h0 =>
    refine iff_of_true ?_ (hnot (by omega))
    split
    · split
      · exact hagree
      · exact hagree
    · exact hagree
  next h1 =>
    refine iff_of_true ?_ (hnot (by omega))
    split
    · exact hagree
    · exact agree_modify hagree child hmark
  next h2 =>
    split
    next d hselected =>
      have hiff : MarkInStep s i m ↔ (s.decisionLock d = none →
          ∀ c ∈ s.tables.children, c.decision = d → Suits c.status (some m.toDecision)) := by
        simp [MarkInStep, h2, hselected]
      rw [hiff]
      split
      next hlock => exact iff_of_true hagree fun hfree => by simp [hfree] at hlock
      next hfree =>
        rw [tables_finish, agree_set hagree]
        exact ⟨fun h _ => h, fun h => h (by simpa using hfree)⟩
    next hselected => exact iff_of_true hagree (by simp [MarkInStep, hselected])
  next _ _ h2 => exact iff_of_true hagree (hnot h2)

theorem suits_other (h : status ≠ .approved) (h' : status ≠ .rejected) (parent : Option DecisionStatus) :
    Suits status parent := ⟨fun hs => absurd hs h, fun hs => absurd hs h'⟩

theorem suits_approval : Suits approval.toChild (some approval.toDecision) := by simp [Suits, approval]

theorem suits_rejection : Suits rejection.toChild (some rejection.toDecision) := by simp [Suits, rejection]

theorem suits_expiry : ∀ parent, Suits expiry.toChild parent := suits_other (by simp [expiry]) (by simp [expiry])

theorem suits_applied : ∀ parent, Suits applied.toChild parent := suits_other (by simp [applied]) (by simp [applied])

theorem suits_executionFailed : ∀ parent, Suits executionFailed.toChild parent :=
  suits_other (by simp [executionFailed]) (by simp [executionFailed])

/-- **A step** keeps the statuses in agreement when, and only when, it is in step. -/
theorem agree_step (hagree : Agree s.tables) (hheld : Held s) (op : Op) :
    Agree (step calls s op).tables ↔ InStep calls s op := by
  cases op with
  | insertDecision => exact iff_of_true (agree_append_decision hagree _) trivial
  | insertChild table decision =>
    refine iff_of_true ?_ trivial
    simp only [step]
    split
    · exact agree_append_child hagree rfl
    · exact hagree
  | next i =>
    cases hcall : calls i <;> simp only [step, Sys.next, InStep, hcall]
    case maybeAutoApprove => exact agree_transaction hagree hheld suits_approval _ _
    case adminApprove => exact agree_transaction hagree hheld suits_approval _ _
    case adminReject => exact agree_transaction hagree hheld suits_rejection _ _
    case expireStale =>
      rw [agree_transaction hagree hheld (suits_expiry _), iff_true]
      exact fun _ r _ c _ => .inr (suits_expiry _)
    case markApplied => exact agree_mark hagree suits_applied _ _
    case markTacticalExecutionFailed => exact agree_mark hagree suits_executionFailed _ _
  | fail i => exact iff_of_true hagree trivial

/-! ## Runs -/

/-- **Agreement.** In a run of any calls, of any number of steps, a child is approved under an approved or applied decision
and rejected under a rejected one throughout, when and only when each step is in step. -/
theorem agree_iff_inStep (calls : ℕ → Call) (ops : List Op) :
    AllStates (step calls) (fun s => Agree s.tables) .start ops ↔ AllSteps (step calls) (InStep calls) .start ops := by
  refine allStates_iff_allSteps (J := fun s => Agree s.tables ∧ Held s) (K := fun _ => True) (fun s h => h.1) ?_ ?_ ?_
    fun _ _ => trivial
  · exact fun s op h _ hin => ⟨(agree_step h.1 h.2 op).2 hin, held_step h.2 op⟩
  · exact fun s op h _ hout hagree => hout ((agree_step h.1 h.2 op).1 hagree)
  · exact ⟨by simp [Agree, Sys.start], by simp [Held, Sys.start, Progress.start]⟩

/-- A decision is rejected, its child is inserted, and an approval that matches no decision approves the child. -/
theorem late_child_approved :
    let calls : ℕ → Call := fun | 0 => .adminReject 0 | _ => .adminApprove 0
    let ops : List Op := .insertDecision :: List.replicate 5 (.next 0) ++
      .insertChild .tacticalChild 0 :: List.replicate 5 (.next 1)
    let t := (run (step calls) .start ops).tables
    t.decisions = [.rejected] ∧ t.children = [⟨.tacticalChild, 0, .approved⟩] ∧
      ¬ AllStates (step calls) (fun s => Agree s.tables) .start ops := by
  decide

end Qtss.Ai
