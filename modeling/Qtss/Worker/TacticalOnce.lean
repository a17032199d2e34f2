import Qtss.Lib.SingleUse
import Qtss.Worker.AiTacticalExecutor
/-
# One order for one tactical decision

A decision is read again for each engine row and tick while its child is `approved`; only the mark after an order ends
that, and the mark's result is ignored.
-/

namespace Qtss.Worker.AiTactical
open Runs SingleUse Ai

variable {toUppercase : String → String} {cfg : ExecutorConfig} {s : Executor} {t : TacticalTable} {a : Answers}
  {e : Entry} {es : EngineSymbolRow} {id id' : Uuid} {status : ChildStatus}

/-- The child is there, decided, and no longer approved. -/
def Done (t : TacticalTable) (id : Uuid) : Prop :=
  (∃ td ∈ t, td.id = id) ∧ ∀ td ∈ t, td.id = id → td.status ≠ .pendingApproval ∧ td.status ≠ .approved

/-- The status write of an order that the venue or the ledger has taken is not lost. What a pass is told about a
statement it does not come to is without effect. -/
def StatusWritten (cfg : ExecutorConfig) : Op → Prop
  | .row a => cfg.dryEnabled ∨ a.placeOk → a.selectOk ∧ a.updateOk
  | _ => True

/-! ## The table -/

theorem Done.map {f : AiTacticalDecisionRow → AiTacticalDecisionRow} (h : Done t id) (hid : ∀ td, (f td).id = td.id)
    (hf : ∀ td, td.status ≠ .pendingApproval → td.status ≠ .approved →
      (f td).status ≠ .pendingApproval ∧ (f td).status ≠ .approved) : Done (t.map f) id := by
  obtain ⟨⟨td, htd, rfl⟩, hdone⟩ := h
  refine ⟨⟨f td, List.mem_map_of_mem htd, hid td⟩, ?_⟩
  intro td' htd' hid'
  obtain ⟨old, hold, rfl⟩ := List.mem_map.1 htd'
  rw [hid] at hid'
  obtain ⟨hpending, happroved⟩ := hdone old hold hid'
  exact hf old hpending happroved

theorem Done.setStatus (h : Done t id) (hpending : status ≠ .pendingApproval) (happroved : status ≠ .approved)
    (id' : Uuid) : Done (setStatus t id' status) id := by
  refine h.map (fun td => ?_) fun td hp ha => ?_
  · split <;> rfl
  · split
    · exact ⟨hpending, happroved⟩
    · exact ⟨hp, ha⟩

theorem done_setStatus (hmem : ∃ td ∈ t, td.id = id) (hpending : status ≠ .pendingApproval)
    (happroved : status ≠ .approved) : Done (setStatus t id status) id := by
  obtain ⟨td, htd, rfl⟩ := hmem
  refine ⟨⟨_, List.mem_map_of_mem htd, by rw [if_pos rfl]⟩, ?_⟩
  intro td' htd' hid'
  obtain ⟨old, hold, rfl⟩ := List.mem_map.1 htd'
  by_cases hid : old.id = td.id
  · rw [if_pos hid]
    exact ⟨hpending, happroved⟩
  · rw [if_neg hid] at hid'
    exact absurd hid' hid

theorem mem_fetchLatestApprovedTactical {sym : String} {now : DateTime} {td : AiTacticalDecisionRow}
    (h : fetchLatestApprovedTactical t sym now = some td) : td ∈ t ∧ td.status = .approved := by
  have hmem := List.mem_of_head? h
  rw [List.mem_insertionSort] at hmem
  obtain ⟨htd, hcond⟩ := List.mem_filter.1 hmem
  simp only [Bool.and_eq_true, decide_eq_true_eq] at hcond
  exact ⟨htd, hcond.1.2⟩

/-! ## A pass -/

/-- The gates let a decision through that is approved in the table. -/
theorem mem_entryFor (h : entryFor toUppercase cfg t es a = some e) : e.td ∈ t ∧ e.td.status = .approved := by
  unfold entryFor at h
  simp only [Option.bind_eq_bind, Option.bind_eq_some_iff, Option.some.injEq] at h
  obtain ⟨_, -, _, -, td, hfetch, _, -, _, -, _, -, _, -, _, -, _, -, _, -, rfl⟩ := h
  exact mem_fetchLatestApprovedTactical hfetch

/-- What a pass does to the child of the decision it has read. -/
structure PassOn (cfg : ExecutorConfig) (a : Answers) (id : Uuid) (s s' : Executor) : Prop where
  tactical : s'.tactical = s.tactical ∨ ∃ status, status ≠ .pendingApproval ∧ status ≠ .approved ∧
    s'.tactical = setStatus s.tactical id status
  acknowledged : s'.acknowledged = s.acknowledged ∨ (cfg.dryEnabled ∨ a.placeOk) ∧
    s'.acknowledged = s.acknowledged ++ [id] ∧
    (a.selectOk → a.updateOk → s'.tactical = setStatus s.tactical id .applied)

theorem acknowledged_markChild (s : Executor) (a : Answers) (id : Uuid) (status : ChildStatus) :
    (markChild s a id status).acknowledged = s.acknowledged := by
  unfold markChild
  split <;> rfl

theorem tactical_markChild (s : Executor) (a : Answers) (id : Uuid) (status : ChildStatus) :
    (markChild s a id status).tactical =
      if a.selectOk && a.updateOk then setStatus s.tactical id status else s.tactical := by
  unfold markChild
  split <;> rfl

/-- A mark without an order. -/
theorem passOn_failed : PassOn cfg a id s (markChild s a id .executionFailed) := by
  constructor
  · rw [tactical_markChild]
    split
    · exact .inr ⟨.executionFailed, by decide, by decide, rfl⟩
    · exact .inl rfl
  · exact .inl (acknowledged_markChild s a id _)

/-- An order and its mark. -/
theorem passOn_applied (ledger : Execution.Dry.DryLedgerState) (hack : cfg.dryEnabled ∨ a.placeOk) : PassOn cfg a id s
    (markChild { s with ledger := ledger, acknowledged := s.acknowledged ++ [id] } a id .applied) := by
  constructor
  · rw [tactical_markChild]
    split
    · exact .inr ⟨.applied, by decide, by decide, rfl⟩
    · exact .inl rfl
  · refine .inr ⟨hack, acknowledged_markChild _ a id _, fun hselect hupdate => ?_⟩
    rw [tactical_markChild, if_pos (by simp [hselect, hupdate])]

theorem passOn_executeDry (hdry : cfg.dryEnabled) : PassOn cfg a e.td.id s (executeDry cfg s a e) := by
  unfold executeDry
  simp only
  split
  · exact passOn_applied _ (.inl hdry)
  · exact ⟨.inl rfl, .inl rfl⟩

theorem passOn_executeLiveBinance : PassOn cfg a e.td.id s (executeLiveBinance cfg s a e) := by
  unfold executeLiveBinance
  split
  · exact ⟨.inl rfl, .inl rfl⟩
  · split
    · exact ⟨.inl rfl, .inl rfl⟩
    · split
      · exact passOn_failed
      · split
        next hplace => exact passOn_applied s.ledger (.inr hplace)
        · exact passOn_failed

theorem passOn_execute (cfg : ExecutorConfig) (s : Executor) (a : Answers) (e : Entry) :
    PassOn cfg a e.td.id s (execute cfg s a e) := by
  unfold execute
  split
  next hdry => exact passOn_executeDry hdry
  · split
    · split
      · exact ⟨.inl rfl, .inl rfl⟩
      · exact passOn_executeLiveBinance
    · exact ⟨.inl rfl, .inl rfl⟩

/-! ## A step -/

theorem done_step (s : Executor) (op : Op) (id : Uuid) (h : Done s.tactical id) :
    Done (step toUppercase cfg s op).tactical id := by
  cases op with
  | tick halted engineSymbols =>
    simp only [step]
    split
    · split <;> exact h
    · exact h
  | row a =>
    simp only [step]
    split
    · exact h
    · split
      · exact h
      next e _ =>
        rcases (passOn_execute cfg _ a e).tactical with hsame | ⟨status, hp, ha, hset⟩
        · rw [hsame]
          exact h
        · rw [hset]
          exact h.setStatus hp ha _
  | insertTactical td =>
    simp only [step]
    split
    · exact h
    next hnew =>
      obtain ⟨⟨old, hold, hid⟩, hdone⟩ := h
      refine ⟨⟨old, List.mem_append_left _ hold, hid⟩, fun td' htd' hid' => ?_⟩
      rcases List.mem_append.1 htd' with htd' | htd'
      · exact hdone td' htd' hid'
      · rw [List.mem_singleton.1 htd'] at hid'
        refine absurd (List.any_eq_true.2 ⟨old, hold, ?_⟩) hnew
        simp only [decide_eq_true_eq]
        rw [hid, ← hid']
  | verdict ids v =>
    refine h.map (fun td => ?_) fun td hp ha => ?_
    · split <;> rfl
    · rw [if_neg (by simp [hp])]
      exact ⟨hp, ha⟩

theorem usesFresh_step (op : Op) (h : StatusWritten cfg op) :
    UsesFresh Executor.acknowledged (fun s => Done s.tactical) s (step toUppercase cfg s op) := by
  cases op with
  | tick halted engineSymbols =>
    left
    simp only [step]
    split
    · split <;> rfl
    · rfl
  | row a =>
    simp only [step]
    split
    · exact .inl rfl
    · split
      · exact .inl rfl
      next e hentry =>
        obtain ⟨hmem, happroved⟩ := mem_entryFor hentry
        rcases (passOn_execute cfg _ a e).acknowledged with hsame | ⟨hack, hone, hmark⟩
        · exact .inl hsame
        · obtain ⟨hselect, hupdate⟩ := h hack
          refine .inr ⟨e.td.id, fun hdone => ?_, hone, ?_⟩
          · exact (hdone.2 e.td hmem rfl).2 happroved
          · show Done (execute cfg _ a e).tactical e.td.id
            rw [hmark hselect hupdate]
            exact done_setStatus ⟨e.td, hmem, rfl⟩ (by decide) (by decide)
  | insertTactical td =>
    left
    simp only [step]
    split <;> rfl
  | verdict ids v => exact .inl rfl

/-- **One order for one decision**, over any ticks, engine rows and answers, in every run in which no status write of an
order is lost. -/
theorem acknowledged_once (toUppercase : String → String) (cfg : ExecutorConfig) (tactical : TacticalTable)
    (ops : List Op) (h : AllSteps (step toUppercase cfg) (fun _ => StatusWritten cfg) (.start cfg tactical) ops) :
    AllStates (step toUppercase cfg) (fun s => s.acknowledged.Nodup) (.start cfg tactical) ops :=
  allStates_nodup done_step (fun _ op hop => usesFresh_step op hop) rfl h

/-! ## A symbol with two engine rows -/

def liveConfig : ExecutorConfig := ⟨false, true, 100, 1, 2, 5, 100000⟩

def approvedBuy : AiTacticalDecisionRow := ⟨7, 0, 100, "BTCUSDT", "buy", some 1, .approved⟩

def btcSpot : EngineSymbolRow := ⟨"binance", "spot", "BTCUSDT"⟩

/-- The venue takes the order, which is not filled yet. -/
def taken (updateOk : Bool) : Answers where
  isBackfillReady := true
  now := 1
  fetchOk := true
  filledSym := some []
  accountPair := some (1, 2)
  positionRisk := none
  markPrice := some 50
  isTradingHalted := false
  client := true
  changeLeverageOk := true
  placeOk := true
  cid := 9
  selectOk := true
  updateOk := updateOk

def twoRows (updateOk : Bool) : List Op :=
  [.tick false (some [btcSpot, btcSpot]), .row (taken updateOk), .row (taken updateOk)]

theorem acknowledged_once_twoRows :
    AllStates (step Execution.Dry.toAsciiUppercase liveConfig) (fun s => s.acknowledged.Nodup)
      (.start liveConfig [approvedBuy]) (twoRows true) ∧
    (run (step Execution.Dry.toAsciiUppercase liveConfig) (.start liveConfig [approvedBuy]) (twoRows true)).acknowledged =
      [7] := by
  refine ⟨acknowledged_once _ _ _ _ ?_, by decide +kernel⟩
  simp [twoRows, AllSteps, StatusWritten, taken]

/-- The status write is lost, and the next engine row places the order again. -/
theorem placed_again :
    (run (step Execution.Dry.toAsciiUppercase liveConfig) (.start liveConfig [approvedBuy]) (twoRows false)).acknowledged =
      [7, 7] ∧
    ¬ AllStates (step Execution.Dry.toAsciiUppercase liveConfig) (fun s => s.acknowledged.Nodup)
      (.start liveConfig [approvedBuy]) (twoRows false) := by
  decide +kernel

end Qtss.Worker.AiTactical
