import Qtss.Worker.TickDispatcherLoop
/-
# The store against the table (`qtss-worker/src/tick_dispatcher_loop.rs`)

`hydrate` runs at start and every minute, and is the only place where the in-memory store hears what other
processes did to `live_positions`. It upserts what is open and removes nothing: `all_ids`, "used by the
dispatcher loop to reconcile the store against the DB on periodic re-hydrate", has no caller. A position that
another process has closed stays and is evaluated on, until this loop closes it itself.

| here | there |
| --- | --- |
| `Hydrated`     | the store holds the open rows and nothing else |
| `hydrated_iff` | when `hydrate` (tick_dispatcher_loop.rs:367) gets there |
-/

namespace Qtss.Worker
open Risk Keyed Runs

variable {s : LivePositionStore} {st : LivePositionState} {states : List LivePositionState}
  {i : PositionId} {row : LivePositionRow} {rows : List LivePositionRow} {d : Dispatcher}

/-! ## What upserts leave -/

/-- Every state is stored under its own id. -/
def OwnIds (s : LivePositionStore) : Prop := ∀ i st, s.get i = some st → st.id = i

theorem ownIds_upsert (h : OwnIds s) (st : LivePositionState) : OwnIds (s.upsert st) := by
  intro i st' hget
  rw [LivePositionStore.get_upsert] at hget
  split at hget
  · rename_i hi
    rw [← Option.some.inj hget, hi]
  · exact h i st' hget

theorem ownIds_step (h : OwnIds s) (op : LivePositionStore.Op) : OwnIds (s.step op) := by
  cases op with
  | upsert state => exact ownIds_upsert h state
  | remove id =>
    intro i st hget
    simp only [LivePositionStore.step, LivePositionStore.get_remove] at hget
    split at hget
    · cases hget
    · exact h i st hget
  | updateMark key price at_ =>
    intro i st hget
    simp only [LivePositionStore.step, LivePositionStore.get_updateMark] at hget
    split at hget
    · obtain ⟨old, hold, rfl⟩ := Option.map_eq_some_iff.1 hget
      exact h i old hold
    · exact h i st hget

/-- However a store came about, its states are under their own ids. -/
theorem ownIds_run (ops : List LivePositionStore.Op) :
    OwnIds (run LivePositionStore.step LivePositionStore.new ops) :=
  run_invariant (J := OwnIds) (K := fun _ => True) (fun _ op h _ => ownIds_step h op)
    (fun i st hget => by simp [LivePositionStore.new, LivePositionStore.get] at hget) fun _ _ => trivial

theorem ownIds_foldl_upsert (h : OwnIds s) (states : List LivePositionState) :
    OwnIds (states.foldl LivePositionStore.upsert s) := by
  induction states generalizing s with
  | nil => exact h
  | cons st states ih => exact ih (ownIds_upsert h st)

/-- Under an id is the last state that is upserted for it, or what was there. -/
theorem get_foldl_upsert (states : List LivePositionState) (s : LivePositionStore) (i : Uuid) :
    (states.foldl LivePositionStore.upsert s).get i = ((states.filter (·.id = i)).getLast?).or (s.get i) := by
  induction states generalizing s with
  | nil => simp
  | cons st states ih =>
    rw [List.foldl_cons, ih, LivePositionStore.get_upsert]
    by_cases h : st.id = i
    · subst h
      cases hl : (states.filter (·.id = st.id)).getLast? <;> simp [List.getLast?_cons, hl]
    · simp [h, Ne.symm h]

/-- What is not upserted stays. -/
theorem get_foldl_upsert_of_not_mem (h : ∀ st ∈ states, st.id ≠ i) :
    (states.foldl LivePositionStore.upsert s).get i = s.get i := by
  have hnone : states.filter (·.id = i) = [] := List.filter_eq_nil_iff.2 fun st hst => by simpa using h st hst
  rw [get_foldl_upsert, hnone]
  rfl

theorem get_foldl_upsert_of_mem (hids : (states.map (·.id)).Nodup) (h : st ∈ states) :
    (states.foldl LivePositionStore.upsert s).get st.id = some st := by
  have hmem : st ∈ states.filter (·.id = st.id) := List.mem_filter.2 ⟨h, decide_eq_true rfl⟩
  obtain ⟨last, hlast⟩ := Option.isSome_iff_exists.1 (List.getLast?_isSome.2 (List.ne_nil_of_mem hmem))
  obtain ⟨hin, hid⟩ := List.mem_filter.1 (List.mem_of_getLast? hlast)
  obtain rfl := List.inj_on_of_nodup_map hids hin h (of_decide_eq_true hid)
  rw [get_foldl_upsert, hlast]
  rfl

theorem mem_allIds : i ∈ s.allIds ↔ (s.get i).isSome := by
  rw [LivePositionStore.allIds, mem_keys_iff, Option.isSome_iff_exists]
  rfl

/-! ## The rows -/

theorem toState_id (h : toState row = some st) : st.id = row.id := by
  simp only [toState, Option.bind_eq_bind] at h
  split at h
  all_goals
    obtain ⟨mode, -, h⟩ := Option.bind_eq_some_iff.1 h
    obtain ⟨segment, -, h⟩ := Option.bind_eq_some_iff.1 h
    split at h
  all_goals
    obtain ⟨side, -, h⟩ := Option.bind_eq_some_iff.1 h
    exact (Option.some.inj h) ▸ rfl

/-- Rows that parse are loaded under their ids. -/
theorem map_id_filterMap_toState (hparse : ∀ row ∈ rows, (toState row).isSome) :
    (rows.filterMap toState).map (·.id) = rows.map (·.id) := by
  induction rows with
  | nil => rfl
  | cons row rows ih =>
    obtain ⟨hrow, hrest⟩ := List.forall_mem_cons.1 hparse
    obtain ⟨st, hst⟩ := Option.isSome_iff_exists.1 hrow
    rw [List.filterMap_cons_some hst, List.map_cons, List.map_cons, ih hrest, toState_id hst]

theorem get_hydrate_of_mem (hids : (rows.map (·.id)).Nodup) (hparse : ∀ row ∈ rows, (toState row).isSome)
    (h : row ∈ rows) : (hydrate d rows).store.get row.id = toState row := by
  obtain ⟨st, hst⟩ := Option.isSome_iff_exists.1 (hparse row h)
  rw [hst, ← toState_id hst]
  refine get_foldl_upsert_of_mem ?_ (List.mem_filterMap.2 ⟨row, h, hst⟩)
  rwa [map_id_filterMap_toState hparse]

theorem get_hydrate_of_not_mem (h : ∀ row ∈ rows, row.id ≠ i) :
    (hydrate d rows).store.get i = d.store.get i := by
  refine get_foldl_upsert_of_not_mem fun st hst => ?_
  obtain ⟨row, hrow, hload⟩ := List.mem_filterMap.1 hst
  rw [toState_id hload]
  exact h row hrow

/-- After a hydrate the store holds the rows and whatever it held before. -/
theorem mem_allIds_hydrate (hids : (rows.map (·.id)).Nodup)
    (hparse : ∀ row ∈ rows, (toState row).isSome) :
    i ∈ (hydrate d rows).store.allIds ↔ (∃ row ∈ rows, row.id = i) ∨ i ∈ d.store.allIds := by
  rw [mem_allIds, mem_allIds]
  by_cases hrow : ∃ row ∈ rows, row.id = i
  · obtain ⟨row, hmem, rfl⟩ := hrow
    rw [get_hydrate_of_mem hids hparse hmem]
    exact iff_of_true (hparse row hmem) (.inl ⟨row, hmem, rfl⟩)
  · rw [get_hydrate_of_not_mem fun row hmem heq => hrow ⟨row, hmem, heq⟩]
    simp only [hrow, false_or]

/-! ## Agreement -/

/-- A state without the marks the ticks write. -/
def unmarked (st : LivePositionState) : LivePositionState :=
  { st with lastMark := none, lastTickAt := none }

/-- The store is the table. -/
structure Hydrated (s : LivePositionStore) (rows : List LivePositionRow) : Prop where
  ids : ∀ i, i ∈ s.allIds ↔ ∃ row ∈ rows, row.id = i
  states : ∀ row ∈ rows, (s.get row.id).map unmarked = (toState row).map unmarked
  /-- Only open positions are evaluated. -/
  evaluated : ∀ key price at_ cfg ctx, ∀ o ∈ (evaluateTick s key price at_ cfg ctx).1,
    ∃ row ∈ rows, row.id = o.1.id

theorem get_of_mem_evaluateTick {key : TickKey} {price : ℚ} {at_ : DateTime} {cfg : TickDispatcherConfig}
    {ctx : TickContext} {o : LivePositionState × PositionTickOutcomes} (hown : OwnIds s)
    (h : o ∈ (evaluateTick s key price at_ cfg ctx).1) : o.1.id ∈ s.allIds := by
  obtain ⟨i, -, ho⟩ := List.mem_filterMap.1 h
  obtain ⟨st, hst, rfl⟩ := Option.map_eq_some_iff.1 ho
  change (s.updateMark key price at_).2.get i = some st at hst
  rw [LivePositionStore.get_updateMark] at hst
  rw [mem_allIds]
  split at hst
  · obtain ⟨old, hold, rfl⟩ := Option.map_eq_some_iff.1 hst
    have hid : (LivePositionStore.onTick price at_ old).id = i := hown i old hold
    simp only [hid, hold, Option.isSome_some]
  · simp only [hown i st hst, hst, Option.isSome_some]

/-- **Hydration**: the store agrees with the open rows afterwards exactly when it held no position before
that has no open row now. -/
theorem hydrated_iff (hown : OwnIds d.store) (hids : (rows.map (·.id)).Nodup)
    (hparse : ∀ row ∈ rows, (toState row).isSome) :
    Hydrated (hydrate d rows).store rows ↔ ∀ i ∈ d.store.allIds, ∃ row ∈ rows, row.id = i := by
  constructor
  · intro h i hi
    exact (h.ids i).1 ((mem_allIds_hydrate hids hparse).2 (.inr hi))
  · intro hheld
    have hall : ∀ i, i ∈ (hydrate d rows).store.allIds ↔ ∃ row ∈ rows, row.id = i := by
      intro i
      rw [mem_allIds_hydrate hids hparse]
      exact ⟨fun h => h.elim id (hheld i), .inl⟩
    refine ⟨hall, fun row hrow => ?_, fun key price at_ cfg ctx o ho => ?_⟩
    · rw [get_hydrate_of_mem hids hparse hrow]
    · exact (hall _).1 (get_of_mem_evaluateTick (ownIds_foldl_upsert hown _) ho)

/-- The open row of `btcSpot`. -/
def btcSpotRow : LivePositionRow :=
  ⟨1, none, "dry", "binance", "spot", "BTCUSDT", "BUY", 1, 100, 1, 1, none, some [], none, none, none, none,
    none, 0⟩

/-- Opened since then. -/
def ethSpotRow : LivePositionRow := { btcSpotRow with id := 2, symbol := "ETHUSDT", side := "SELL" }

theorem hydrated_btcSpot :
    Hydrated (hydrate (.start (run LivePositionStore.step .new [.upsert LivePositionStore.btcSpot]))
      [btcSpotRow, ethSpotRow]).store [btcSpotRow, ethSpotRow] :=
  (hydrated_iff (ownIds_run _) (by decide) (by decide +kernel)).2 (by decide +kernel)

/-- The only open row is gone, and the next tick evaluates its position all the same. -/
theorem closed_elsewhere_is_evaluated :
    let s := (hydrate (.start (run LivePositionStore.step .new [.upsert LivePositionStore.btcSpot])) []).store
    s.allIds = [1]
      ∧ (evaluateTick s LivePositionStore.btcSpot.key 50 60 .default .default).1.map (·.1.id) = [1]
      ∧ ¬ Hydrated s [] := by
  refine ⟨by decide +kernel, by decide +kernel, fun h => ?_⟩
  have := (h.ids 1).1 (by decide +kernel)
  simp at this

end Qtss.Worker
