import Mathlib.Algebra.Order.Field.Rat
import Qtss.Domain
import Qtss.Lib.Keyed
import Qtss.Lib.Runs
/-
# The store of filled positions (`qtss-risk/src/live_position_store.rs`)

| here | there |
| --- | --- |
| `LivePositionState`, `TickKey` | `LivePositionState` (live_position_store.rs:80), `TickKey` (:109); `key` is the key a state is indexed under |
| `LivePositionStore`     | `LivePositionStore` (:119): the positions by id and the ids by tick key |
| `upsert`, `updateMark`, `remove` | `upsert` (:130), `update_mark` (:152), `remove` (:177) |

The two maps are kept in step by hand. `remove` reads the key to clean up from the state it removes
and is exact; `upsert` adds the id under the key of the *new* state and leaves the entry under the
key of the state it replaces, so a position that moves to another venue or symbol goes on receiving
the ticks of the old one. `index_exact_iff` says that nothing else can spoil the index.
-/

namespace Qtss.Risk
open Keyed Runs

abbrev PositionId := Uuid

inductive ExecutionMode where
  | dry | live
deriving DecidableEq, Repr

inductive PositionSide where
  | buy | sell
deriving DecidableEq, Repr

inductive MarketSegment where
  | spot | futures | margin | options
deriving DecidableEq, Repr

structure TpLeg where
  price : ℚ
  qty : ℚ
  filledQty : ℚ
deriving DecidableEq

structure LivePositionState where
  id : PositionId
  setupId : Option Uuid
  mode : ExecutionMode
  exchange : String
  segment : MarketSegment
  symbol : String
  side : PositionSide
  leverage : Nat
  entryAvg : ℚ
  qtyFilled : ℚ
  qtyRemaining : ℚ
  currentSl : Option ℚ
  tpLadder : List TpLeg
  liquidationPrice : Option ℚ
  maintMarginRatio : Option ℚ
  fundingRateNext : Option ℚ
  lastMark : Option ℚ
  lastTickAt : Option DateTime
  openedAt : DateTime
deriving DecidableEq

/-- "`segment` is part of the key because BTCUSDT spot and BTCUSDT futures are independent venues
[…] ticks from one must not update the other." -/
structure TickKey where
  mode : ExecutionMode
  exchange : String
  segment : MarketSegment
  symbol : String
deriving DecidableEq

def LivePositionState.key (s : LivePositionState) : TickKey :=
  ⟨s.mode, s.exchange, s.segment, s.symbol⟩

structure LivePositionStore where
  byId : HashMap PositionId LivePositionState
  byTick : HashMap TickKey (List PositionId)

namespace LivePositionStore

def new : LivePositionStore := ⟨∅, ∅⟩

/-- live_position_store.rs:130. -/
def upsert (s : LivePositionStore) (state : LivePositionState) : LivePositionStore where
  byId := s.byId.insert state.id state
  byTick := addTo state.key state.id s.byTick

/-- What a tick writes into a position (:163). -/
def onTick (price : ℚ) (at_ : DateTime) (state : LivePositionState) : LivePositionState :=
  { state with lastMark := some price, lastTickAt := some at_ }

/-- live_position_store.rs:152: the ids to re-evaluate and the store. -/
def updateMark (s : LivePositionStore) (key : TickKey) (price : ℚ) (at_ : DateTime) :
    List PositionId × LivePositionStore :=
  let ids := listed s.byTick key
  if ids = [] then (ids, s)
  else (ids, { s with byId := ids.foldl (fun m id => adjust (onTick price at_) id m) s.byId })

def get (s : LivePositionStore) (id : PositionId) : Option LivePositionState := s.byId.lookup id

/-- live_position_store.rs:177. -/
def remove (s : LivePositionStore) (id : PositionId) : LivePositionStore :=
  match s.byId.lookup id with
  | none => s
  | some state => ⟨s.byId.erase id, dropFrom state.key id s.byTick⟩

def openCount (s : LivePositionStore) : Nat := s.byId.keys.length

def tickKeys (s : LivePositionStore) : List TickKey := s.byTick.keys

def allIds (s : LivePositionStore) : List PositionId := s.byId.keys

/-- The writing calls. -/
inductive Op where
  | upsert (state : LivePositionState)
  | remove (id : PositionId)
  | updateMark (key : TickKey) (price : ℚ) (at_ : DateTime)

def step (s : LivePositionStore) : Op → LivePositionStore
  | .upsert state => s.upsert state
  | .remove id => s.remove id
  | .updateMark key price at_ => (s.updateMark key price at_).2

/-! ## The operations on positions and index -/

/-- The store holds `id` under the key `k`. -/
def Holds (s : LivePositionStore) (id : PositionId) (k : TickKey) : Prop :=
  (s.get id).map (·.key) = some k

instance (s : LivePositionStore) (id : PositionId) (k : TickKey) : Decidable (s.Holds id k) := by
  unfold Holds; infer_instance

variable {s : LivePositionStore} {state : LivePositionState} {id i : PositionId} {k key : TickKey}
  {price : ℚ} {at_ : DateTime}

@[simp] theorem get_upsert :
    (s.upsert state).get i = if i = state.id then some state else s.get i :=
  lookup_insert_eq ..

@[simp] theorem get_remove : (s.remove id).get i = if i = id then none else s.get i := by
  unfold remove
  split
  · rename_i h
    by_cases hi : i = id
    · subst hi; simp [get, h]
    · simp [hi]
  · exact lookup_erase_eq ..

theorem onTick_onTick (price : ℚ) (at_ : DateTime) (state : LivePositionState) :
    onTick price at_ (onTick price at_ state) = onTick price at_ state := rfl

/-- A tick marks the positions listed under its key. -/
@[simp] theorem get_updateMark :
    (s.updateMark key price at_).2.get i =
      if i ∈ listed s.byTick key then (s.get i).map (onTick price at_) else s.get i := by
  unfold updateMark
  simp only
  split
  · rename_i h; simp [h]
  · exact lookup_foldl_adjust (onTick_onTick price at_) i _ _

theorem updateMark_byTick : (s.updateMark key price at_).2.byTick = s.byTick := by
  unfold updateMark
  simp only
  split <;> rfl

theorem count_upsert :
    (listed (s.upsert state).byTick k).count i =
      if k = state.key ∧ i = state.id then max 1 ((listed s.byTick state.key).count state.id)
      else (listed s.byTick k).count i :=
  count_addTo ..

theorem count_remove :
    (listed (s.remove id).byTick k).count i =
      if s.Holds id k ∧ i = id then 0 else (listed s.byTick k).count i := by
  unfold remove Holds get
  split
  · rename_i h; simp [h]
  · rename_i state h
    rw [count_dropFrom]
    simp [h, eq_comm]

/-! ## The index -/

/-- The index lists every position once, under its own key, and keeps no empty list. -/
structure Indexed (s : LivePositionStore) : Prop where
  exact : ∀ k i, (listed s.byTick k).count i = if s.Holds i k then 1 else 0
  noEmpty : NoEmpty s.byTick

/-- What a reader sees of it. -/
structure IndexExact (s : LivePositionStore) : Prop where
  /-- Every id is listed once under the key of its state and nowhere else. -/
  exact : ∀ k i, (listed s.byTick k).count i = if s.Holds i k then 1 else 0
  /-- A tick marks exactly the positions of its key. -/
  marks : ∀ key price at_ i, (s.updateMark key price at_).2.get i =
    (s.get i).map fun state => if state.key = key then onTick price at_ state else state
  /-- The tick keys are those of the stored positions. -/
  keys : ∀ k, k ∈ s.tickKeys ↔ ∃ i, s.Holds i k

theorem Indexed.mem_listed (h : s.Indexed) : i ∈ listed s.byTick k ↔ s.Holds i k := by
  rw [← List.count_pos_iff, h.exact]
  split <;> simp [*]

theorem Indexed.indexExact (h : s.Indexed) : s.IndexExact where
  exact := h.exact
  marks key price at_ i := by
    simp only [get_updateMark, h.mem_listed, Holds]
    cases s.get i with
    | none => simp
    | some state => by_cases hk : state.key = key <;> simp [hk]
  keys k := by
    rw [tickKeys, h.noEmpty.mem_keys_iff]
    exact exists_congr fun i => h.mem_listed

theorem indexed_new : new.Indexed where
  exact k i := by simp [new, listed, Holds, get]
  noEmpty k := by simp [new]

/-- The step condition: a position that is replaced keeps its key. -/
def KeepsKey (s : LivePositionStore) : Op → Prop
  | .upsert state => ∀ old ∈ s.get state.id, old.key = state.key
  | .remove _ | .updateMark _ _ _ => True

theorem holds_upsert :
    (s.upsert state).Holds i k ↔ if i = state.id then state.key = k else s.Holds i k := by
  unfold Holds
  rw [get_upsert]
  split <;> simp

theorem holds_remove : (s.remove id).Holds i k ↔ i ≠ id ∧ s.Holds i k := by
  unfold Holds
  rw [get_remove]
  split <;> simp [*]

/-- Marks do not touch the key of a position. -/
theorem holds_updateMark : (s.updateMark key price at_).2.Holds i k ↔ s.Holds i k := by
  unfold Holds
  rw [get_updateMark]
  split
  · cases s.get i <;> simp [onTick, LivePositionState.key]
  · rfl

theorem indexed_upsert (h : s.Indexed) (hk : ∀ old ∈ s.get state.id, old.key = state.key) :
    (s.upsert state).Indexed := by
  refine ⟨fun k i => ?_, h.noEmpty.addTo _ _⟩
  simp only [count_upsert, h.exact, holds_upsert]
  by_cases hi : i = state.id
  · subst hi
    by_cases hkey : k = state.key
    · subst hkey
      simp only [and_self, if_true]
      split <;> rfl
    · -- the old state, if any, has the key of the new one
      have hold : ¬ s.Holds state.id k := by
        unfold Holds
        rintro hheld
        obtain ⟨old, hget, hold⟩ := Option.map_eq_some_iff.1 hheld
        exact hkey (hold.symm.trans (hk old hget))
      simp [hkey, hold, Ne.symm hkey]
  · simp [hi]

theorem indexed_remove (h : s.Indexed) (id : PositionId) : (s.remove id).Indexed := by
  refine ⟨fun k i => ?_, ?_⟩
  · simp only [count_remove, h.exact, holds_remove]
    by_cases hi : i = id
    · subst hi
      by_cases hheld : s.Holds i k <;> simp [hheld]
    · simp [hi]
  · unfold remove
    split
    · exact h.noEmpty
    · exact h.noEmpty.dropFrom _ _

theorem indexed_updateMark (h : s.Indexed) (key : TickKey) (price : ℚ) (at_ : DateTime) :
    (s.updateMark key price at_).2.Indexed := by
  refine ⟨fun k i => ?_, ?_⟩
  · simp only [updateMark_byTick, h.exact, holds_updateMark]
  · rw [updateMark_byTick]
    exact h.noEmpty

theorem indexed_step {op : Op} (h : s.Indexed) (hk : s.KeepsKey op) : (s.step op).Indexed := by
  cases op with
  | upsert state => exact indexed_upsert h hk
  | remove id => exact indexed_remove h id
  | updateMark key price at_ => exact indexed_updateMark h key price at_

/-! ## What the store is for -/

/-- The positions, without an index. -/
abbrev Positions := PositionId → Option LivePositionState

/-- What each call is meant to do to the positions: a tick goes to those of its key. -/
def Positions.step (ps : Positions) : Op → Positions
  | .upsert state => Function.update ps state.id (some state)
  | .remove id => Function.update ps id none
  | .updateMark key price at_ => fun i =>
    (ps i).map fun state => if state.key = key then onTick price at_ state else state

/-- Through an exact index every call does what it is meant to. -/
theorem get_step (h : s.Indexed) (op : Op) : (s.step op).get = Positions.step s.get op := by
  funext i
  cases op with
  | upsert state => simp only [step, get_upsert, Positions.step, Function.update_apply]
  | remove id => simp only [step, get_remove, Positions.step, Function.update_apply]
  | updateMark key price at_ => exact h.indexExact.marks key price at_ i

/-- **The refinement**: along a run whose upserts keep the keys, the store and the positions without
an index agree. -/
theorem run_refines_positions (ops : List Op) (h : AllSteps step KeepsKey new ops) :
    (run step new ops).get = run Positions.step (fun _ => none) ops := by
  have hgood : ∀ s op, Indexed s → True → s.KeepsKey op →
      (s.step op).Indexed ∧ (s.step op).get = Positions.step s.get (id op) :=
    fun s op hs _ hk => ⟨indexed_step hs hk, get_step hs op⟩
  have hsim := run_simulates (allSteps_of_invariant hgood indexed_new (fun _ _ => trivial) h)
  rwa [List.map_id] at hsim

/-! ## When the index is exact -/

/-- An upsert that changes the key leaves the id under the old one. -/
theorem not_exact_of_moved {op : Op} (h : s.Indexed) (hk : ¬ s.KeepsKey op) :
    ¬ (s.step op).IndexExact := by
  cases op with
  | upsert state =>
    simp only [KeepsKey, not_forall] at hk
    obtain ⟨old, hold, hne⟩ := hk
    intro hex
    have hheld : s.Holds state.id old.key := by
      unfold Holds
      rw [show s.get state.id = some old from hold, Option.map_some]
    have hcount := hex.exact old.key state.id
    simp [step, count_upsert, h.exact, hheld, holds_upsert, hne, Ne.symm hne] at hcount
  | remove id => exact absurd trivial hk
  | updateMark key price at_ => exact absurd trivial hk

/-- **`index_exact_iff`**: along any run from the empty store the tick index is exact in every state
exactly when no upsert changes the key of a stored id. -/
theorem index_exact_iff (ops : List Op) :
    AllStates step IndexExact new ops ↔ AllSteps step KeepsKey new ops :=
  @allStates_iff_allSteps _ _ _ Indexed _ _ (fun _ => True) (fun _ h => h.indexExact)
    (fun _ _ h _ hk => indexed_step h hk) (fun _ _ h _ hk => not_exact_of_moved h hk) _ _
    indexed_new fun _ _ => trivial

def btcSpot : LivePositionState :=
  ⟨1, none, .dry, "binance", .spot, "BTCUSDT", .buy, 1, 100, 1, 1, none, [], none, none, none, none,
    none, 0⟩

/-- Position 1 moves from spot to futures: a spot tick still marks it, and the spot key stays. -/
theorem moved_position_hears_old_key :
    let s := run step new [.upsert btcSpot, .upsert { btcSpot with segment := .futures }]
    btcSpot.key ∈ s.tickKeys ∧ ¬ s.Holds 1 btcSpot.key ∧ listed s.byTick btcSpot.key = [1] ∧
      ((s.updateMark btcSpot.key 50 60).2.get 1).map (·.lastMark) = some (some 50) := by
  decide +kernel

end LivePositionStore

end Qtss.Risk
