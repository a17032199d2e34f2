import Qtss.Worker.TickDispatcherLoop
/-
# Take-profit ladders over a run of sweeps

What a sweep reports depends on the mark alone, since no fill is written into the ladder. `sweeps_iff`: every
leg is reported once, and a position evaluated beyond all of its legs is closed as `tp_complete` then and
there, exactly on the runs in which no leg is due twice and every such position has nothing left to fill.
-/

namespace Qtss.Worker
open Risk Notify Runs

/-- The leg a partial take-profit is about. -/
def ScaleEvent.leg (e : ScaleEvent) : Option (PositionId × ℕ) :=
  if e.eventKind = .partialTp then e.legIndex.map fun k => (e.positionId, k) else none

def Dispatcher.partialTps (d : Dispatcher) : List (PositionId × ℕ) := d.scaleEvents.filterMap ScaleEvent.leg

/-- The mark is beyond every leg of the ladder, and there is one. -/
def AllCrossed (st : LivePositionState) : Prop :=
  st.tpLadder ≠ [] ∧ ∃ mark ∈ st.lastMark, ∀ leg ∈ st.tpLadder, crossed st.side mark leg.price = true

instance : DecidablePred AllCrossed := fun _ => inferInstanceAs (Decidable (_ ∧ _))

/-- Every leg has been reported at most once, and every position that was evaluated beyond all of its legs
was closed as `tp_complete` by then. -/
def LaddersOk (d : Dispatcher) : Prop :=
  d.partialTps.Nodup ∧ ∀ e ∈ d.seen, AllCrossed e.snapshot → e.complete = true

instance : DecidablePred LaddersOk := fun _ => inferInstanceAs (Decidable (_ ∧ _))

/-! ## The condition -/

/-- The guards ask for something at this mark, and not for a panic close; the stop is not reached, nothing is
left of the position, and the closing write succeeds. -/
def ClosesComplete (i : SweepInput) (mark : ℚ) (d : Dispatcher)
    (o : LivePositionState × PositionTickOutcomes) : Prop :=
  o.2.hasAction = true ∧ o.2.liquidation.any (·.action == .panicClose) = false
    ∧ slCloseReason d.store o.2.positionId mark = none
    ∧ (∃ cur, d.store.get o.2.positionId = some cur ∧ cur.qtyRemaining ≤ 0 ∧ 0 < cur.qtyFilled)
    ∧ i.closeOk o.2.positionId = true

/-- No leg is due that was due at an earlier evaluation, and a position beyond all of its legs is closed as
`tp_complete` already or meets `ClosesComplete`. -/
def EvaluatesOnce (i : SweepInput) (mark : ℚ) (d : Dispatcher)
    (o : LivePositionState × PositionTickOutcomes) : Prop :=
  (∀ e ∈ d.seen, e.snapshot.id = o.1.id → ∀ k, ¬ (Due e.snapshot k ∧ Due o.1 k))
    ∧ (AllCrossed o.1 → d.completed o.1.id = true ∨ ClosesComplete i mark d o)

/-- Every position of the key, one after the other. -/
def KeyOnce (i : SweepInput) (d : Dispatcher) (key : TickKey) : Prop :=
  match freshTick i key with
  | none => True
  | some tick =>
    let (outcomes, store) := evaluateTick d.store key tick.mid tick.receivedAt .default .default
    AllSteps (evaluateOne i tick.mid) (EvaluatesOnce i tick.mid) { d with store := store } outcomes

/-- Every key of the sweep. -/
def SweepOnce (d : Dispatcher) : DispatcherOp → Prop
  | .hydrate _ => True
  | .sweep i => AllSteps (sweepKey i) (KeyOnce i) d d.store.tickKeys

/-! ## One evaluation -/

variable {i : SweepInput} {mark : ℚ} {d : Dispatcher} {pos : PositionTickOutcomes}
  {o : LivePositionState × PositionTickOutcomes}

/-- The outcome is the one of its snapshot. -/
def Matches (o : LivePositionState × PositionTickOutcomes) : Prop :=
  ∃ cfg ctx, o.2 = evaluatePosition o.1 cfg ctx

@[simp] theorem closePosition_scaleEvents {id : PositionId} {reason : CloseReason} :
    (closePosition i id reason mark d).scaleEvents = d.scaleEvents := by
  unfold closePosition
  simp only
  split <;> rfl

@[simp] theorem closePosition_seen {id : PositionId} {reason : CloseReason} :
    (closePosition i id reason mark d).seen = d.seen := by
  unfold closePosition
  simp only
  split <;> rfl

theorem closePosition_completed {id : PositionId} {reason : CloseReason} :
    (closePosition i id reason mark d).completed id = true ↔
      d.completed id = true ∨ i.closeOk id = true ∧ reason = .tpComplete := by
  unfold closePosition
  simp only
  split
  · rename_i hok
    simp [Dispatcher.completed, hok]
  · rename_i hok
    simp [hok]

variable (mark) in
/-- The partial take-profits of an outcome are its triggers: the ratchet and the scale manager report
nothing. -/
theorem scaleRows_legs (h : Matches o) :
    (scaleRows o.2 mark).filterMap ScaleEvent.leg = (dueLegs o.1).map fun k => (o.1.id, k) := by
  obtain ⟨cfg, ctx, heq⟩ := h
  rw [heq]
  simp [scaleRows, evaluatePosition, scaleEvaluate, ratchetEvaluate, scaleEventKind, ratchetEvent,
    List.filterMap_map, dueLegs, ScaleEvent.leg, Function.comp_def]

theorem slCloseReason_slHit {store : LivePositionStore} {id : PositionId} {reason : CloseReason}
    (h : slCloseReason store id mark = some reason) : reason = .slHit := by
  unfold slCloseReason at h
  cases hget : store.get id with
  | none => simp [hget] at h
  | some state =>
    cases hsl : state.currentSl with
    | none => simp [hget, hsl] at h
    | some sl =>
      simp only [hget, hsl, Option.bind_eq_bind, Option.bind_some] at h
      cases hside : state.side <;> simp [hside] at h <;> exact h.2.symm

variable (mark d pos) in
theorem closeReasonFor_tpComplete :
    closeReasonFor pos d.store mark = some .tpComplete ↔
      pos.liquidation.any (·.action == .panicClose) = false
        ∧ slCloseReason d.store pos.positionId mark = none
        ∧ ∃ cur, d.store.get pos.positionId = some cur ∧ cur.qtyRemaining ≤ 0 ∧ 0 < cur.qtyFilled := by
  unfold closeReasonFor
  cases hpanic : pos.liquidation.any (·.action == .panicClose) with
  | true => simp
  | false =>
    cases hsl : slCloseReason d.store pos.positionId mark with
    | some reason =>
      simp [slCloseReason_slHit hsl]
    | none =>
      cases hget : d.store.get pos.positionId with
      | none => simp
      | some cur => simp

theorem evaluateOne_partialTps (h : Matches o) :
    (evaluateOne i mark d o).partialTps =
      d.partialTps ++ (dueLegs o.1).map fun k => (o.1.id, k) := by
  have hrows := scaleRows_legs mark h
  unfold evaluateOne dispatchOutcome Dispatcher.partialTps
  cases haction : o.2.hasAction with
  | false =>
    -- no action, so no trigger
    have hnone : dueLegs o.1 = [] := by
      obtain ⟨cfg, ctx, heq⟩ := h
      rw [heq] at haction
      simp only [PositionTickOutcomes.hasAction, evaluatePosition, Bool.or_eq_false_iff,
        Bool.not_eq_false', List.isEmpty_iff] at haction
      simp [dueLegs, haction.2]
    simp only [Bool.not_false, if_true, hnone, List.map_nil, List.append_nil]
    split <;> simp
  | true =>
    rw [← hrows]
    simp only [Bool.not_true, Bool.false_eq_true, if_false]
    split <;> simp [persistOutcome]

theorem evaluateOne_seen (h : Matches o) :
    ∃ complete, (evaluateOne i mark d o).seen = d.seen ++ [⟨o.1, complete⟩]
      ∧ (complete = true ↔ d.completed o.1.id = true ∨ ClosesComplete i mark d o) := by
  have hid : o.2.positionId = o.1.id := by
    obtain ⟨cfg, ctx, heq⟩ := h
    rw [heq]
    rfl
  refine ⟨(dispatchOutcome i mark d o.2).completed o.1.id, ?_, ?_⟩
  · unfold evaluateOne dispatchOutcome
    simp only
    split
    · split <;> simp
    · split <;> simp [persistOutcome]
  · unfold dispatchOutcome ClosesComplete
    rw [← hid]
    cases haction : o.2.hasAction with
    | false =>
      simp only [Bool.not_false, if_true, Bool.false_eq_true, false_and, or_false]
      cases hsl : slCloseReason d.store o.2.positionId mark with
      | none => rfl
      | some reason =>
        simp only
        rw [closePosition_completed, slCloseReason_slHit hsl]
        simp
    | true =>
      simp only [Bool.not_true, Bool.false_eq_true, if_false, true_and]
      have hreason := closeReasonFor_tpComplete mark d o.2
      have hcompleted : (persistOutcome o.2 mark d).completed = d.completed := rfl
      have hstore : (persistOutcome o.2 mark d).store = d.store := rfl
      rw [hstore]
      cases hclose : closeReasonFor o.2 d.store mark with
      | none =>
        rw [hclose] at hreason
        have hnot := mt hreason.2 (by simp)
        constructor
        · exact Or.inl
        · rintro (hdone | ⟨hpanic, hsl, hcur, -⟩)
          · exact hdone
          · exact absurd ⟨hpanic, hsl, hcur⟩ hnot
      | some reason =>
        simp only
        rw [closePosition_completed, hcompleted]
        rw [hclose, Option.some.injEq] at hreason
        rw [hreason]
        constructor
        · rintro (hdone | ⟨hok, hpanic, hsl, hcur⟩)
          · exact .inl hdone
          · exact .inr ⟨hpanic, hsl, hcur, hok⟩
        · rintro (hdone | ⟨hpanic, hsl, hcur, hok⟩)
          · exact .inl hdone
          · exact .inr ⟨hok, hpanic, hsl, hcur⟩

/-- The log of partial take-profits is what the evaluations found due. -/
def Logged (d : Dispatcher) : Prop :=
  d.partialTps = d.seen.flatMap fun e => (dueLegs e.snapshot).map fun k => (e.snapshot.id, k)

theorem evaluateOne_logged (hd : Logged d) (h : Matches o) : Logged (evaluateOne i mark d o) := by
  obtain ⟨complete, hseen, -⟩ := evaluateOne_seen (i := i) (d := d) h
  unfold Logged at hd ⊢
  rw [evaluateOne_partialTps h, hseen, List.flatMap_append, ← hd]
  simp

/-- **One evaluation** keeps the ladders in order exactly when it meets the condition. -/
theorem evaluateOne_laddersOk_iff (hd : Logged d) (h : Matches o) :
    LaddersOk (evaluateOne i mark d o) ↔ LaddersOk d ∧ EvaluatesOnce i mark d o := by
  obtain ⟨complete, hseen, hcomplete⟩ := evaluateOne_seen (i := i) (d := d) h
  have hfresh : (∀ a ∈ d.partialTps, ∀ b ∈ (dueLegs o.1).map fun k => (o.1.id, k), a ≠ b) ↔
      ∀ e ∈ d.seen, e.snapshot.id = o.1.id → ∀ k, ¬ (Due e.snapshot k ∧ Due o.1 k) := by
    rw [hd]
    constructor
    · intro hne e he hid k hk
      refine hne (e.snapshot.id, k) ?_ (o.1.id, k) ?_ (by rw [hid])
      · exact List.mem_flatMap.2 ⟨e, he, List.mem_map.2 ⟨k, mem_dueLegs.2 hk.1, rfl⟩⟩
      · exact List.mem_map.2 ⟨k, mem_dueLegs.2 hk.2, rfl⟩
    · rintro hno a ha b hb rfl
      obtain ⟨e, he, ha⟩ := List.mem_flatMap.1 ha
      obtain ⟨k, hk, rfl⟩ := List.mem_map.1 ha
      obtain ⟨k', hk', heq⟩ := List.mem_map.1 hb
      obtain ⟨hid, rfl⟩ := Prod.mk.inj heq
      exact hno e he hid.symm k' ⟨mem_dueLegs.1 hk, mem_dueLegs.1 hk'⟩
  have hnew : ((dueLegs o.1).map fun k => (o.1.id, k)).Nodup :=
    (dueLegs_nodup o.1).map fun a b hab => (Prod.mk.inj hab).2
  unfold LaddersOk EvaluatesOnce
  rw [evaluateOne_partialTps h, hseen, List.nodup_append, hfresh, ← hcomplete]
  simp only [hnew, true_and, List.forall_mem_append, List.forall_mem_singleton]
  exact and_and_and_comm

/-! ## A sweep and a run -/

theorem evaluateTick_matches {store : LivePositionStore} {key : TickKey} {price : ℚ} {at_ : DateTime} :
    ∀ o ∈ (evaluateTick store key price at_ .default .default).1, Matches o := by
  intro o ho
  unfold evaluateTick at ho
  simp only [List.mem_filterMap, Option.map_eq_some_iff] at ho
  obtain ⟨id, -, state, -, rfl⟩ := ho
  exact ⟨_, _, rfl⟩

theorem logged_store {store : LivePositionStore} : Logged { d with store := store } ↔ Logged d := Iff.rfl

theorem sweepKey_logged (hd : Logged d) (key : TickKey) : Logged (sweepKey i d key) := by
  unfold sweepKey
  split
  · exact hd
  · exact run_invariant (J := Logged) (K := Matches) (fun d o hd ho => evaluateOne_logged hd ho)
      (logged_store.2 hd) evaluateTick_matches

theorem sweepKey_laddersOk_iff (hd : Logged d) (key : TickKey) :
    LaddersOk (sweepKey i d key) ↔ LaddersOk d ∧ KeyOnce i d key := by
  unfold sweepKey KeyOnce
  cases freshTick i key with
  | none => simp
  | some tick =>
    exact run_iff_allSteps (J := Logged) (K := Matches) (fun d o hd ho => evaluateOne_logged hd ho)
      (fun d o hd ho => evaluateOne_laddersOk_iff hd ho) (logged_store.2 hd) evaluateTick_matches

theorem dispatcherStep_logged (hd : Logged d) (op : DispatcherOp) : Logged (dispatcherStep d op) := by
  cases op with
  | hydrate rows => exact hd
  | sweep i =>
    exact run_invariant (J := Logged) (K := fun _ => True)
      (fun d key hd _ => sweepKey_logged hd key) hd fun _ _ => trivial

theorem dispatcherStep_laddersOk_iff (hd : Logged d) (op : DispatcherOp) :
    LaddersOk (dispatcherStep d op) ↔ LaddersOk d ∧ SweepOnce d op := by
  cases op with
  | hydrate rows => exact (and_iff_left trivial).symm
  | sweep i =>
    exact run_iff_allSteps (J := Logged) (K := fun _ => True)
      (fun d key hd _ => sweepKey_logged hd key) (fun d key hd _ => sweepKey_laddersOk_iff hd key) hd
      fun _ _ => trivial

/-- **Ladders over a run of sweeps and hydrations**, from any store. -/
theorem sweeps_iff (store : LivePositionStore) (ops : List DispatcherOp) :
    AllStates dispatcherStep LaddersOk (.start store) ops ↔
      AllSteps dispatcherStep SweepOnce (.start store) ops := by
  apply allStates_iff_allSteps_of_iff (J := Logged) (K := fun _ => True)
  · exact fun d op hd _ => dispatcherStep_logged hd op
  · exact fun d op hd _ => dispatcherStep_laddersOk_iff hd op
  · rfl
  · exact fun _ _ => trivial
  · constructor <;> simp [Dispatcher.start, Dispatcher.partialTps]

/-- A long of 1 from 100 with its whole size to be taken at 105. -/
def oneLeg : LivePositionState :=
  ⟨1, none, .dry, "binance", .futures, "BTCUSDT", .buy, 10, 100, 1, 1, some 95, [⟨105, 1, 0⟩], none,
    none, none, none, none, 0⟩

def at106 (now : DateTime) : SweepInput :=
  ⟨fun _ _ => some ⟨106, 106, now⟩, now, 30, fun _ => 5, fun _ => true⟩

/-- Two sweeps at 106 report the leg twice and close nothing. -/
theorem ladder_reported_again :
    ¬ AllStates dispatcherStep LaddersOk (.start (.upsert .new oneLeg))
      [.sweep (at106 0), .sweep (at106 1)]
    ∧ (run dispatcherStep (.start (.upsert .new oneLeg))
        [.sweep (at106 0), .sweep (at106 1)]).partialTps = [(1, 0), (1, 0)]
    ∧ (run dispatcherStep (.start (.upsert .new oneLeg))
        [.sweep (at106 0), .sweep (at106 1)]).closed = [] := by
  decide +kernel

end Qtss.Worker
