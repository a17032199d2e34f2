import Mathlib.Data.List.Sort
import Mathlib.Algebra.Order.Group.Abs
import Mathlib.Tactic.Linarith
import Qtss.Risk.LivePositionStore
/-
# Store against broker (`qtss-risk/src/reconcile.rs`)

| here | there |
| --- | --- |
| `BrokerPositionSnapshot`, `ReconcileAction`, `ReconcileConfig` | reconcile.rs:28, :51, :85 |
| `qtyMismatchAction` | `qty_mismatch_action` (:155); `to_f64` is the identity on `ℚ` |
| `diffWithIds`       | `diff_with_ids` (:198) |
| `diff`              | `diff` (:105); `collectLocalIds` is `collect_local_ids` (:187) |

`diffWithIds_eq_nil` says what an empty action list means. It means less than that the books agree:
only the *last* broker row of an id is compared, its side is not looked at, two quantities of zero or
less pass whatever they are, and a listed id the store does not hold hides the broker's row.

`diff_with_ids` is documented as "functionally identical to `diff`", but `diff` works on no ids at
all: it never looks into the store and reports every row of some size as an orphan
(`diff_complete_iff`).
-/

namespace Qtss.Risk
open Keyed

structure BrokerPositionSnapshot where
  positionId : Option PositionId
  exchange : String
  segment : MarketSegment
  symbol : String
  side : PositionSide
  qty : ℚ
  entryAvg : ℚ
  leverage : Nat
deriving DecidableEq

inductive ReconcileSeverity where
  | info | warn | critical
deriving DecidableEq, Repr

/-- `severity as u8`. -/
def ReconcileSeverity.rank : ReconcileSeverity → Nat
  | .info => 0
  | .warn => 1
  | .critical => 2

inductive ReconcileAction where
  | missingOnBroker (positionId : PositionId) (severity : ReconcileSeverity)
  | missingLocally (exchange : String) (segment : MarketSegment) (symbol : String)
      (side : PositionSide) (qty : ℚ) (severity : ReconcileSeverity)
  | qtyMismatch (positionId : PositionId) (localQty brokerQty : ℚ) (severity : ReconcileSeverity)
deriving DecidableEq

def ReconcileAction.severity : ReconcileAction → ReconcileSeverity
  | .missingOnBroker _ severity | .missingLocally _ _ _ _ _ severity
  | .qtyMismatch _ _ _ severity => severity

structure ReconcileConfig where
  qtyMismatchTolerance : ℚ
  mode : ExecutionMode
deriving DecidableEq

/-- reconcile.rs:94. -/
def ReconcileConfig.default : ReconcileConfig := ⟨1 / 1000, .live⟩

/-- `rel` (:165): the difference relative to the larger quantity. -/
def relDelta (l b : ℚ) : ℚ := |l - b| / max (max |l| |b|) (1 / 10 ^ 12)

/-- reconcile.rs:155. -/
def qtyMismatchAction (id : PositionId) (l b : ℚ) (cfg : ReconcileConfig) :
    Option ReconcileAction :=
  if l ≤ 0 ∧ b ≤ 0 then none
  else
    let rel := relDelta l b
    if rel < cfg.qtyMismatchTolerance then none
    else
      let severity : ReconcileSeverity :=
        if rel > 10 / 100 then .critical else if rel > 2 / 100 then .warn else .info
      some (.qtyMismatch id l b severity)

/-- `broker_by_id` (:205): later rows of an id overwrite earlier ones. -/
def brokerById (broker : List BrokerPositionSnapshot) :
    HashMap PositionId BrokerPositionSnapshot :=
  collect (broker.filterMap fun b => b.positionId.map fun id => (id, b))

/-- Store → broker (:210-225). -/
def storeAction (store : LivePositionStore) (broker : List BrokerPositionSnapshot)
    (cfg : ReconcileConfig) (id : PositionId) : Option ReconcileAction :=
  match store.get id with
  | none => none
  | some held =>
    match (brokerById broker).lookup id with
    | none => some (.missingOnBroker id .critical)
    | some b => qtyMismatchAction id held.qtyRemaining b.qty cfg

/-- Broker → store (:228-240). -/
def orphanAction (localIds : List PositionId) (b : BrokerPositionSnapshot) :
    Option ReconcileAction :=
  let known := (b.positionId.map fun id => localIds.contains id).getD false
  if known then none
  else if b.qty = 0 then none
  else some (.missingLocally b.exchange b.segment b.symbol b.side b.qty .warn)

/-- `sort_by_key(Reverse(severity))`, stable. -/
def sortBySeverity (actions : List ReconcileAction) : List ReconcileAction :=
  actions.insertionSort fun a b => b.severity.rank ≤ a.severity.rank

/-- reconcile.rs:198. -/
def diffWithIds (store : LivePositionStore) (localIds : List PositionId)
    (broker : List BrokerPositionSnapshot) (cfg : ReconcileConfig) : List ReconcileAction :=
  sortBySeverity (localIds.filterMap (storeAction store broker cfg) ++
    broker.filterMap (orphanAction localIds))

/-- reconcile.rs:189: "For now: return an empty vec and rely on the broker→store pass only when no
iterator exists." -/
def collectLocalIds (_ : LivePositionStore) (_ : ExecutionMode) : List PositionId := []

/-- reconcile.rs:105. Its two loops are those of `diff_with_ids`. -/
def diff (store : LivePositionStore) (broker : List BrokerPositionSnapshot)
    (cfg : ReconcileConfig) : List ReconcileAction :=
  diffWithIds store (collectLocalIds store cfg.mode) broker cfg

/-! ## What an empty list means -/

/-- The broker rows of one position. -/
def rowsOf (broker : List BrokerPositionSnapshot) (id : PositionId) : List BrokerPositionSnapshot :=
  broker.filter (·.positionId = some id)

/-- Within the tolerance of the configuration. -/
def Within (cfg : ReconcileConfig) (l b : ℚ) : Prop := relDelta l b < cfg.qtyMismatchTolerance

instance (cfg : ReconcileConfig) (l b : ℚ) : Decidable (Within cfg l b) := by
  unfold Within; infer_instance

section nil
variable {store : LivePositionStore} {localIds : List PositionId}
  {broker : List BrokerPositionSnapshot} {cfg : ReconcileConfig} {id : PositionId}

theorem sortBySeverity_eq_nil {actions : List ReconcileAction} :
    sortBySeverity actions = [] ↔ actions = [] := by
  rw [← List.length_eq_zero_iff, sortBySeverity, List.length_insertionSort,
    List.length_eq_zero_iff]

theorem qtyMismatchAction_eq_none {l b : ℚ} :
    qtyMismatchAction id l b cfg = none ↔ (l ≤ 0 ∧ b ≤ 0) ∨ Within cfg l b := by
  unfold qtyMismatchAction Within
  by_cases h0 : l ≤ 0 ∧ b ≤ 0
  · simp [h0]
  · by_cases hw : relDelta l b < cfg.qtyMismatchTolerance <;> simp [h0, hw]

theorem filter_tagged (broker : List BrokerPositionSnapshot) (id : PositionId) :
    (broker.filterMap fun b => b.positionId.map fun i => (i, b)).filter (·.1 = id) =
      (rowsOf broker id).map (id, ·) := by
  induction broker with
  | nil => rfl
  | cons b broker ih =>
    cases hb : b.positionId with
    | none => simpa [rowsOf, hb] using ih
    | some i => by_cases hi : i = id <;> simpa [rowsOf, hb, hi] using ih

/-- The map keeps the last row of each id. -/
theorem brokerById_lookup : (brokerById broker).lookup id = (rowsOf broker id).getLast? := by
  rw [brokerById, lookup_collect, filter_tagged, List.getLast?_map, Option.map_map]
  exact congrFun Option.map_id _

theorem storeAction_eq_none :
    storeAction store broker cfg id = none ↔
      ∀ held ∈ store.get id, ∃ b ∈ (rowsOf broker id).getLast?,
        (held.qtyRemaining ≤ 0 ∧ b.qty ≤ 0) ∨ Within cfg held.qtyRemaining b.qty := by
  unfold storeAction
  rw [brokerById_lookup]
  cases store.get id with
  | none => simp
  | some held => cases (rowsOf broker id).getLast? <;> simp [qtyMismatchAction_eq_none]

theorem orphanAction_eq_none {b : BrokerPositionSnapshot} :
    orphanAction localIds b = none ↔ b.qty ≠ 0 → ∃ id ∈ localIds, b.positionId = some id := by
  unfold orphanAction
  cases b.positionId with
  | none => by_cases hq : b.qty = 0 <;> simp [hq]
  | some i => by_cases hi : i ∈ localIds <;> by_cases hq : b.qty = 0 <;> simp [hi, hq]

/-- **An empty action list**: the last broker row of every listed stored position has its quantity,
and every other row of some size carries a listed id. -/
theorem diffWithIds_eq_nil :
    diffWithIds store localIds broker cfg = [] ↔
      (∀ id ∈ localIds, ∀ held ∈ store.get id, ∃ b ∈ (rowsOf broker id).getLast?,
        (held.qtyRemaining ≤ 0 ∧ b.qty ≤ 0) ∨ Within cfg held.qtyRemaining b.qty) ∧
      ∀ b ∈ broker, b.qty ≠ 0 → ∃ id ∈ localIds, b.positionId = some id := by
  simp only [diffWithIds, sortBySeverity_eq_nil, List.append_eq_nil_iff, List.filterMap_eq_nil_iff,
    storeAction_eq_none, orphanAction_eq_none]

end nil

/-! ## What it does not mean -/

section agree
variable (store : LivePositionStore) (localIds : List PositionId)
  (broker : List BrokerPositionSnapshot) (cfg : ReconcileConfig)

/-- Every listed stored position is at the broker: its id, its side, its quantity. -/
def Confirmed : Prop :=
  ∀ id ∈ localIds, ∀ held ∈ store.get id, ∃ b ∈ broker,
    b.positionId = some id ∧ b.side = held.side ∧ Within cfg held.qtyRemaining b.qty

/-- Every broker row of some size is that of a listed stored position. -/
def Known : Prop :=
  ∀ b ∈ broker, b.qty ≠ 0 → ∃ id ∈ localIds, b.positionId = some id ∧ (store.get id).isSome

/-- The last row of a position is on its side and of some size (or within the tolerance all the
same), or an earlier one is on its side and within the tolerance. -/
def RightSide : Prop :=
  ∀ id ∈ localIds, ∀ held ∈ store.get id,
    (∃ b ∈ (rowsOf broker id).getLast?, b.side = held.side ∧
      (0 < held.qtyRemaining ∨ 0 < b.qty ∨ Within cfg held.qtyRemaining b.qty)) ∨
    ∃ b ∈ (rowsOf broker id).dropLast, b.side = held.side ∧ Within cfg held.qtyRemaining b.qty

/-- No row of some size hides behind a listed id the store does not hold. -/
def NoStaleId : Prop :=
  ∀ b ∈ broker, b.qty ≠ 0 → ∀ id ∈ localIds, b.positionId = some id → (store.get id).isSome

instance : Decidable (Confirmed store localIds broker cfg) := by
  unfold Confirmed; infer_instance

end agree

section agree
variable {store : LivePositionStore} {localIds : List PositionId}
  {broker : List BrokerPositionSnapshot} {cfg : ReconcileConfig}

theorem mem_rowsOf {id : PositionId} {b : BrokerPositionSnapshot} :
    b ∈ rowsOf broker id ↔ b ∈ broker ∧ b.positionId = some id := by simp [rowsOf]

/-- The last row is within the tolerance or of no size on both sides, so only its side is open; the
earlier rows are not compared at all. -/
theorem confirmed_iff (h : diffWithIds store localIds broker cfg = []) :
    Confirmed store localIds broker cfg ↔ RightSide store localIds broker cfg := by
  refine forall₂_congr fun id hid => forall₂_congr fun held hheld => ?_
  obtain ⟨last, hlast, hqty⟩ := (diffWithIds_eq_nil.1 h).1 id hid held hheld
  have hrows : (rowsOf broker id).dropLast ++ [last] = rowsOf broker id :=
    List.dropLast_append_getLast? _ hlast
  have hwithin : 0 < held.qtyRemaining ∨ 0 < last.qty ∨ Within cfg held.qtyRemaining last.qty →
      Within cfg held.qtyRemaining last.qty := by
    rcases hqty with ⟨hl, hb⟩ | hw
    · rintro (h0 | h0 | hw)
      · exact absurd hl h0.not_ge
      · exact absurd hb h0.not_ge
      · exact hw
    · exact fun _ => hw
  have hmem : ∀ b, b ∈ broker ∧ b.positionId = some id ↔
      b ∈ (rowsOf broker id).dropLast ∨ b = last := fun b => by
    rw [← mem_rowsOf, ← hrows]
    simp
  constructor
  · rintro ⟨b, hb, hbid, hside, hw⟩
    rcases (hmem b).1 ⟨hb, hbid⟩ with hearlier | rfl
    · exact .inr ⟨b, hearlier, hside, hw⟩
    · exact .inl ⟨b, hlast, hside, .inr (.inr hw)⟩
  · rintro (⟨b, hb, hside, hsize⟩ | ⟨b, hearlier, hside, hw⟩)
    · obtain rfl := Option.mem_unique hb hlast
      obtain ⟨hbroker, hbid⟩ := (hmem b).2 (.inr rfl)
      exact ⟨b, hbroker, hbid, hside, hwithin hsize⟩
    · obtain ⟨hbroker, hbid⟩ := (hmem b).2 (.inl hearlier)
      exact ⟨b, hbroker, hbid, hside, hw⟩

theorem known_iff (h : diffWithIds store localIds broker cfg = []) :
    Known store localIds broker ↔ NoStaleId store localIds broker := by
  refine forall₂_congr fun b hb => forall_congr' fun hq => ?_
  obtain ⟨id, hid, hbid⟩ := (diffWithIds_eq_nil.1 h).2 b hb hq
  constructor
  · rintro ⟨i, -, hbi, hheld⟩ j - hbj
    rwa [Option.some.inj (hbj.symm.trans hbi)]
  · exact fun hheld => ⟨id, hid, hbid, hheld id hid hbid⟩

/-- **`books_agree_iff`**: where the action list is empty, the books agree exactly when the broker
rows are on the right side and no listed id is stale. -/
theorem books_agree_iff (h : diffWithIds store localIds broker cfg = []) :
    (Confirmed store localIds broker cfg ∧ Known store localIds broker) ↔
      RightSide store localIds broker cfg ∧ NoStaleId store localIds broker := by
  rw [confirmed_iff h, known_iff h]

end agree

def heldLong : LivePositionState :=
  ⟨1, none, .live, "binance", .futures, "BTCUSDT", .buy, 10, 100, 1, 1, none, [], none, none, none,
    none, none, 0⟩

def brokerRow (side : PositionSide) (qty : ℚ) : BrokerPositionSnapshot :=
  ⟨some 1, "binance", .futures, "BTCUSDT", side, qty, 100, 10⟩

/-- The store is one long, the broker one short: nothing to report. -/
theorem opposite_side_unreported :
    let store := LivePositionStore.new.upsert heldLong
    diffWithIds store [1] [brokerRow .sell 1] .default = [] ∧
      ¬ Confirmed store [1] [brokerRow .sell 1] .default := by
  decide +kernel

/-- An earlier row, whatever it says, does not trouble the last one. -/
theorem books_agree_within_tolerance :
    let store := LivePositionStore.new.upsert heldLong
    let rows := [brokerRow .sell 3, brokerRow .buy (10005 / 10000)]
    (Confirmed store [1] rows .default ∧ Known store [1] rows) ↔
      RightSide store [1] rows .default ∧ NoStaleId store [1] rows :=
  books_agree_iff (by decide +kernel)

/-! ## `diff` against `diff_with_ids` -/

/-- Every stored position of a mode. -/
def idsOfMode (store : LivePositionStore) (mode : ExecutionMode) : List PositionId :=
  store.allIds.filter fun id => (store.get id).any (·.mode == mode)

/-- The same actions, those of equal severity in any order. -/
structure SameActions (as bs : List ReconcileAction) : Prop where
  perm : as.Perm bs
  ranks : as.map (·.severity.rank) = bs.map (·.severity.rank)

/-- `diff` is `diff_with_ids` on all stored positions of the mode; a position the broker does not
report is reported missing, and a row of a position known to both sides is no orphan. -/
structure DiffComplete (store : LivePositionStore) (broker : List BrokerPositionSnapshot)
    (cfg : ReconcileConfig) : Prop where
  same : SameActions (diff store broker cfg)
    (diffWithIds store (idsOfMode store cfg.mode) broker cfg)
  missing : ∀ id ∈ idsOfMode store cfg.mode, rowsOf broker id = [] →
    .missingOnBroker id .critical ∈ diff store broker cfg
  known : ∀ b ∈ broker, (∃ id ∈ idsOfMode store cfg.mode, b.positionId = some id) →
    orphanAction (collectLocalIds store cfg.mode) b = none

/-- The broker lists every stored position of the mode, with no quantity, and nothing is left of it
in the store either. -/
def AllReportedFlat (store : LivePositionStore) (broker : List BrokerPositionSnapshot)
    (cfg : ReconcileConfig) : Prop :=
  ∀ id ∈ idsOfMode store cfg.mode, rowsOf broker id ≠ [] ∧ (∀ b ∈ rowsOf broker id, b.qty = 0) ∧
    ∀ held ∈ store.get id, held.qtyRemaining ≤ 0 ∨ Within cfg held.qtyRemaining 0

theorem sortBySeverity_ranks (as : List ReconcileAction) :
    (sortBySeverity as).map (·.severity.rank) =
      (as.map (·.severity.rank)).insertionSort (· ≥ ·) :=
  List.map_insertionSort _ _ _ _ fun _ _ _ _ => Iff.rfl

theorem sameActions_of_perm {as bs : List ReconcileAction} (h : as.Perm bs) :
    SameActions (sortBySeverity as) (sortBySeverity bs) where
  perm := (List.perm_insertionSort _ as).trans (h.trans (List.perm_insertionSort _ bs).symm)
  ranks := by
    rw [sortBySeverity_ranks, sortBySeverity_ranks]
    refine List.Perm.eq_of_sortedGE List.sortedGE_insertionSort List.sortedGE_insertionSort ?_
    exact (List.perm_insertionSort _ _).trans
      ((h.map _).trans (List.perm_insertionSort _ _).symm)

section diff
variable {store : LivePositionStore} {localIds : List PositionId}
  {broker : List BrokerPositionSnapshot} {cfg : ReconcileConfig} {id : PositionId}

/-- The row carries a listed id. -/
def knownRow (localIds : List PositionId) (b : BrokerPositionSnapshot) : Bool :=
  localIds.any fun id => b.positionId == some id

theorem orphan_isSome :
    (fun b => (orphanAction localIds b).isSome) =
      fun b => b.qty != 0 && !knownRow localIds b := by
  funext b
  rw [Bool.eq_iff_iff, ← Option.not_isNone, Bool.not_eq_true', ← Bool.not_eq_true,
    Option.isNone_iff_eq_none, orphanAction_eq_none]
  simp [knownRow]

theorem diff_perm (store : LivePositionStore) (broker : List BrokerPositionSnapshot)
    (cfg : ReconcileConfig) :
    (diff store broker cfg).Perm (broker.filterMap (orphanAction [])) :=
  List.perm_insertionSort _ _

def isOrphan : ReconcileAction → Bool
  | .missingLocally _ _ _ _ _ _ => true
  | _ => false

theorem storeAction_isOrphan {a : ReconcileAction} (h : storeAction store broker cfg id = some a) :
    isOrphan a = false := by
  unfold storeAction qtyMismatchAction at h
  split at h
  · cases h
  · split at h
    · obtain rfl := Option.some.inj h
      rfl
    · split at h
      · cases h
      · simp only at h
        split at h
        · cases h
        · obtain rfl := Option.some.inj h
          rfl

theorem orphanAction_isOrphan {b : BrokerPositionSnapshot} {a : ReconcileAction}
    (h : orphanAction localIds b = some a) : isOrphan a = true := by
  simp only [orphanAction] at h
  split at h
  · cases h
  · split at h
    · cases h
    · obtain rfl := Option.some.inj h
      rfl

/-- If listing the ids changes no action, no listed position is off and the ids hide no row. -/
theorem no_action_of_perm
    (h : (broker.filterMap (orphanAction [])).Perm
      (localIds.filterMap (storeAction store broker cfg) ++
        broker.filterMap (orphanAction localIds))) :
    (∀ id ∈ localIds, storeAction store broker cfg id = none) ∧
      ∀ b ∈ broker, knownRow localIds b → b.qty = 0 := by
  -- an orphan is no action of the store pass
  have hstore : localIds.filterMap (storeAction store broker cfg) = [] := by
    refine List.eq_nil_iff_forall_not_mem.2 fun a ha => ?_
    obtain ⟨id, -, hid⟩ := List.mem_filterMap.1 ha
    obtain ⟨b, -, hb⟩ := List.mem_filterMap.1 (h.mem_iff.2 (List.mem_append_left _ ha))
    exact absurd ((storeAction_isOrphan hid).symm.trans (orphanAction_isOrphan hb)) (by simp)
  refine ⟨List.filterMap_eq_nil_iff.1 hstore, fun b hb hknown => ?_⟩
  -- so the orphan pass kept as many rows as without ids
  have hlen := h.length_eq
  rw [hstore, List.nil_append, List.length_filterMap_eq_countP, List.length_filterMap_eq_countP,
    orphan_isSome, orphan_isSome,
    List.countP_eq_countP_filter_add broker _ (knownRow localIds)] at hlen
  simp only [List.countP_filter, knownRow, List.any_nil, Bool.not_false, Bool.and_true] at hlen
  have hzero : broker.countP (fun b => b.qty != 0 && knownRow localIds b) = 0 := by
    simp only [knownRow]
    omega
  have hb0 := List.countP_eq_zero.1 hzero b hb
  simpa [hknown] using hb0

theorem mem_idsOfMode {mode : ExecutionMode} :
    id ∈ idsOfMode store mode ↔ ∃ held ∈ store.get id, held.mode = mode := by
  simp only [idsOfMode, List.mem_filter, LivePositionStore.allIds, mem_keys_iff,
    LivePositionStore.get]
  constructor
  · rintro ⟨⟨held, hget⟩, hmode⟩
    exact ⟨held, hget, by simpa [hget] using hmode⟩
  · rintro ⟨held, hget, hmode⟩
    have hget' : store.byId.lookup id = some held := hget
    exact ⟨⟨held, hget'⟩, by simp [hget', hmode]⟩

/-- A flat row is an orphan to no one, and an unknown one to everyone. -/
theorem orphanAction_of_flat {ids : List Uuid} {b : BrokerPositionSnapshot}
    (h : knownRow ids b → b.qty = 0) : orphanAction [] b = orphanAction ids b := by
  by_cases hk : knownRow ids b
  · simp [orphanAction, h hk]
  · cases hb : b.positionId with
    | none => simp [orphanAction, hb]
    | some i =>
      have hi : i ∉ ids := fun hi => hk (by simpa [knownRow, hb] using hi)
      simp [orphanAction, hb, hi]

/-- **`diff_complete_iff`**: `diff`, which lists no local ids, reports what `diff_with_ids` reports on
all stored positions of the mode exactly when each of these is flat on both sides. -/
theorem diff_complete_iff (store : LivePositionStore) (broker : List BrokerPositionSnapshot)
    (cfg : ReconcileConfig) :
    DiffComplete store broker cfg ↔ AllReportedFlat store broker cfg := by
  have hknown : ∀ b, knownRow (idsOfMode store cfg.mode) b ↔
      ∃ id ∈ idsOfMode store cfg.mode, b.positionId = some id := by simp [knownRow]
  constructor
  · intro h id hid
    have hperm := ((diff_perm store broker cfg).symm.trans h.same.perm).trans
      (List.perm_insertionSort _ _)
    obtain ⟨hstore, hrows⟩ := no_action_of_perm hperm
    have hflat : ∀ b ∈ rowsOf broker id, b.qty = 0 := by
      intro b hb
      obtain ⟨hbroker, hbid⟩ := mem_rowsOf.1 hb
      exact hrows b hbroker ((hknown b).2 ⟨id, hid, hbid⟩)
    obtain ⟨held, hheld, -⟩ := mem_idsOfMode.1 hid
    obtain ⟨last, hlast, hqty⟩ := storeAction_eq_none.1 (hstore id hid) held hheld
    have hmem : last ∈ rowsOf broker id := List.mem_of_getLast? hlast
    refine ⟨List.ne_nil_of_mem hmem, hflat, fun held' hheld' => ?_⟩
    obtain rfl := Option.mem_unique hheld hheld'
    rw [hflat last hmem] at hqty
    exact hqty.imp And.left fun hw => hw
  · intro h
    have hzero : ∀ b ∈ broker, knownRow (idsOfMode store cfg.mode) b → b.qty = 0 := by
      intro b hb hk
      obtain ⟨id, hid, hbid⟩ := (hknown b).1 hk
      exact (h id hid).2.1 b (mem_rowsOf.2 ⟨hb, hbid⟩)
    have hstore : (idsOfMode store cfg.mode).filterMap (storeAction store broker cfg) = [] := by
      refine List.filterMap_eq_nil_iff.2 fun id hid => storeAction_eq_none.2 fun held hheld => ?_
      obtain ⟨hne, hflat, hqty⟩ := h id hid
      have hlast := List.getLast?_eq_some_getLast hne
      refine ⟨_, hlast, ?_⟩
      rw [hflat _ (List.getLast_mem hne)]
      exact (hqty held hheld).imp (fun hle => ⟨hle, le_rfl⟩) fun hw => hw
    have horphan : broker.filterMap (orphanAction []) =
        broker.filterMap (orphanAction (idsOfMode store cfg.mode)) :=
      List.filterMap_congr fun b hb => orphanAction_of_flat (hzero b hb)
    refine ⟨?_, fun id hid hnone => absurd hnone (h id hid).1, fun b hb hk => ?_⟩
    · refine sameActions_of_perm ?_
      rw [hstore, ← horphan]
      exact List.Perm.refl _
    · simp [orphanAction, collectLocalIds, hzero b hb ((hknown b).2 hk)]

end diff

/-- A stored position that the broker does not list: `diff` has nothing to report. -/
theorem missing_position_unreported :
    let store := LivePositionStore.new.upsert heldLong
    idsOfMode store .live = [1] ∧ diff store [] .default = [] ∧
      diffWithIds store [1] [] .default = [.missingOnBroker 1 .critical] := by
  decide +kernel

end Qtss.Risk
