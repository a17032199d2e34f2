import Mathlib.Tactic.Linarith
import Mathlib.Tactic.LinearCombination
import Mathlib.Tactic.Ring
import Qtss.Worker.BridgeBooks
import Qtss.Worker.Hydration
import Qtss.Worker.PositionClosers
/-
# What a closed position is said to have made

A position is left in slices: each partial take-profit at the price of its leg, and the rest at the closing mark.
`slicedRealized` adds them up, each with the fee of `compute_realized_pnl` ("both entry + exit assumed taker").

Nothing takes a partial take-profit off `qty_filled` or `qty_remaining`, so no closer sees it: the tick dispatcher
takes the whole quantity at the closing mark, less the fee, and the other two the whole quantity at `last_mark`,
with no fee. `realized_iff`: the stored values are right in every state of a run exactly when every closing step
meets `TickFair` or `MtmFair`.
-/

namespace Qtss.Worker
open Storage Risk Runs

/-! ## The sum over the slices -/

/-- What a slice brings, less the taker fee on its two legs. -/
def sliceResult (sign entry rate : ℚ) (sl : Slice) : ℚ :=
  sign * ((sl.price - entry) * sl.qty) - rate * (entry + sl.price) * sl.qty

/-- The partial fills, and the rest at `mark`. -/
def slicedRealized (sign entry filled rate : ℚ) (slices : List Slice) (mark : ℚ) : ℚ :=
  (slices.map (sliceResult sign entry rate)).sum +
    sliceResult sign entry rate ⟨mark, filled - (slices.map (·.qty)).sum⟩

/-- How much more the partial fills would have brought at `mark`, for a long. -/
def missed (slices : List Slice) (mark : ℚ) : ℚ := (slices.map fun sl => (mark - sl.price) * sl.qty).sum

/-- The sum over the slices is that of one fill at `mark`, but for what the slices missed. -/
theorem slicedRealized_eq (sign entry filled rate : ℚ) (slices : List Slice) (mark : ℚ) :
    slicedRealized sign entry filled rate slices mark =
      sign * ((mark - entry) * filled) - rate * (entry + mark) * filled - (sign - rate) * missed slices mark := by
  unfold slicedRealized missed
  induction slices generalizing filled with
  | nil => simp [sliceResult]
  | cons sl slices ih =>
    have hrest := ih (filled - sl.qty)
    simp only [List.map_cons, List.sum_cons, sliceResult] at hrest ⊢
    linear_combination hrest

def feeRate (takerBps : Risk.MarketSegment → ℚ) (row : LivePosition) : ℚ :=
  takerBps ((parseSegment row.segment).getD .futures) / 10000

/-- What the row should say. -/
def fairRealized (takerBps : Risk.MarketSegment → ℚ) (row : LivePosition) (slices : List Slice) (mark : ℚ) : ℚ :=
  slicedRealized (sideSign row.side) row.entryAvg row.qtyFilled (feeRate takerBps row) slices mark

/-- The stored value is the sum over the slices, whatever mark the row was closed at. -/
def Closure.Fair (takerBps : Risk.MarketSegment → ℚ) (c : Closure) : Prop :=
  ∀ mark ∈ c.mark, c.realizedPnlQuote = some (fairRealized takerBps c.row c.slices mark)

instance (takerBps : Risk.MarketSegment → ℚ) : DecidablePred (Closure.Fair takerBps) := fun _ =>
  inferInstanceAs (Decidable (∀ mark ∈ _, _ = some _))

def PnlRight (s : Desk) : Prop := ∀ c ∈ s.closures, c.Fair s.takerBps

instance : DecidablePred PnlRight := fun s => inferInstanceAs (Decidable (∀ c ∈ s.closures, c.Fair s.takerBps))

/-! ## The condition -/

/-- The partial fills would have brought the same at the closing mark, fee included. -/
def TickFair (takerBps : Risk.MarketSegment → ℚ) (row : LivePosition) (slices : List Slice) (mark : ℚ) : Prop :=
  (sideSign row.side - feeRate takerBps row) * missed slices mark = 0

/-- What the partial fills missed makes up for the fee on the whole quantity. -/
def MtmFair (takerBps : Risk.MarketSegment → ℚ) (row : LivePosition) (slices : List Slice) (mark : ℚ) : Prop :=
  feeRate takerBps row * (row.entryAvg + mark) * row.qtyFilled +
    (sideSign row.side - feeRate takerBps row) * missed slices mark = 0

instance (takerBps : Risk.MarketSegment → ℚ) (row : LivePosition) (slices : List Slice) (mark : ℚ) :
    Decidable (TickFair takerBps row slices mark) := inferInstanceAs (Decidable (_ = _))

instance (takerBps : Risk.MarketSegment → ℚ) (row : LivePosition) (slices : List Slice) (mark : ℚ) :
    Decidable (MtmFair takerBps row slices mark) := inferInstanceAs (Decidable (_ = _))

/-- What a row that is closed by the step has to meet. -/
def FairAt (s : Desk) : DeskOp → LivePosition → Prop
  | .outcome _ _, p =>
    match s.dispatching with
    | [] => True
    | (mark, pos) :: _ =>
      TickFair s.takerBps p (slicesOf (if pos.hasAction then s.scaleEvents ++ scaleRows pos mark
        else s.scaleEvents) p.id) mark
  | .timeStop _ _, p | .supersede _ _ _, p =>
    ∀ mark ∈ p.lastMark, MtmFair s.takerBps p (slicesOf s.scaleEvents p.id) mark
  | _, _ => True

/-- Every open row that the step closes meets the condition of its closer. -/
def ClosesFairly (s : Desk) (op : DeskOp) : Prop :=
  ∀ p ∈ s.positions, p.closedAt = none → closes s op p = true → FairAt s op p

/-! ## Rows, store and queue -/

/-- A row as the bridge writes it; nothing changes these columns later. -/
structure Unreduced (p : LivePosition) : Prop where
  side : p.side = "BUY" ∨ p.side = "SELL"
  remaining : p.qtyRemaining = p.qtyFilled
  filled : 0 < p.qtyFilled

/-- What `compute_realized_pnl` reads is what the row says. -/
structure Mirrors (st : LivePositionState) (p : LivePosition) : Prop where
  segment : parseSegment p.segment = some st.segment
  side : st.side = if p.side = "BUY" then .buy else .sell
  entryAvg : st.entryAvg = p.entryAvg
  qtyFilled : st.qtyFilled = p.qtyFilled

structure Kept (s : Desk) : Prop where
  ids : (s.positions.map (·.id)).Nodup
  unreduced : ∀ p ∈ s.positions, Unreduced p
  own : OwnIds s.store
  listed : ∀ id st, s.store.get id = some st → ∃ p ∈ s.positions, p.id = id
  mirrors : ∀ id st, s.store.get id = some st → ∀ p ∈ s.positions, p.id = id → Mirrors st p
  queued : ∀ o ∈ s.dispatching, ∃ p ∈ s.positions, p.id = o.2.positionId
  /-- An outcome whose position has left the store is about a closed row. -/
  closed : ∀ o ∈ s.dispatching, s.store.get o.2.positionId = none →
    ∀ p ∈ s.positions, p.id = o.2.positionId → p.closedAt.isSome

/-- The same position, maybe closed. -/
structure SameDeal (p p' : LivePosition) : Prop where
  id : p'.id = p.id
  side : p'.side = p.side
  segment : p'.segment = p.segment
  entryAvg : p'.entryAvg = p.entryAvg
  qtyFilled : p'.qtyFilled = p.qtyFilled
  qtyRemaining : p'.qtyRemaining = p.qtyRemaining
  closedAt : p.closedAt.isSome → p'.closedAt.isSome

/-! ## The invariant -/

variable {s : Desk} {p p' : LivePosition} {st : LivePositionState}

theorem SameDeal.refl (p : LivePosition) : SameDeal p p := ⟨rfl, rfl, rfl, rfl, rfl, rfl, fun h => h⟩

theorem Unreduced.sameDeal (h : Unreduced p) (hsame : SameDeal p p') : Unreduced p' where
  side := hsame.side ▸ h.side
  remaining := hsame.qtyRemaining.trans (h.remaining.trans hsame.qtyFilled.symm)
  filled := hsame.qtyFilled ▸ h.filled

theorem Mirrors.sameDeal (h : Mirrors st p) (hsame : SameDeal p p') : Mirrors st p' where
  segment := hsame.segment ▸ h.segment
  side := hsame.side ▸ h.side
  entryAvg := h.entryAvg.trans hsame.entryAvg.symm
  qtyFilled := h.qtyFilled.trans hsame.qtyFilled.symm

theorem Kept.start (setups : List SetupRow) (takerBps : Risk.MarketSegment → ℚ) :
    Kept (.start setups takerBps) where
  ids := List.nodup_nil
  unreduced := fun p hp => nomatch hp
  own := fun i st hget => by simp [Desk.start, Desk.store, BridgeWorker.start, LivePositionStore.new,
    LivePositionStore.get] at hget
  listed := fun i st hget => by simp [Desk.start, Desk.store, BridgeWorker.start, LivePositionStore.new,
    LivePositionStore.get] at hget
  mirrors := fun i st hget => by simp [Desk.start, Desk.store, BridgeWorker.start, LivePositionStore.new,
    LivePositionStore.get] at hget
  queued := fun o ho => nomatch ho
  closed := fun o ho => nomatch ho

/-- The table, the store and the queue are all there is to it. -/
theorem Kept.congr {s' : Desk} (h : Kept s) (hpos : s'.positions = s.positions) (hstore : s'.store = s.store)
    (hqueue : ∀ o ∈ s'.dispatching, o ∈ s.dispatching) : Kept s' where
  ids := hpos ▸ h.ids
  unreduced := hpos ▸ h.unreduced
  own := hstore ▸ h.own
  listed := hpos ▸ hstore ▸ h.listed
  mirrors := hpos ▸ hstore ▸ h.mirrors
  queued := fun o ho => hpos ▸ h.queued o (hqueue o ho)
  closed := fun o ho => hpos ▸ hstore ▸ h.closed o (hqueue o ho)

/-- An UPDATE that leaves the deals as they are. -/
theorem Kept.map {s' : Desk} (h : Kept s) (f : LivePosition → LivePosition) (hf : ∀ p, SameDeal p (f p))
    (hpos : s'.positions = s.positions.map f) (hstore : s'.store = s.store)
    (hqueue : s'.dispatching = s.dispatching) : Kept s' where
  ids := by
    have hid : (fun p : LivePosition => (f p).id) = (·.id) := funext fun p => (hf p).id
    rw [hpos, List.map_map]
    simpa [Function.comp_def, hid] using h.ids
  unreduced := by
    rw [hpos]
    exact List.forall_mem_map.2 fun p hp => (h.unreduced p hp).sameDeal (hf p)
  own := hstore ▸ h.own
  listed := by
    intro id st hget
    obtain ⟨p, hp, hid⟩ := h.listed id st (hstore ▸ hget)
    exact ⟨f p, hpos ▸ List.mem_map.2 ⟨p, hp, rfl⟩, (hf p).id.trans hid⟩
  mirrors := by
    intro id st hget
    rw [hpos]
    exact List.forall_mem_map.2 fun p hp hid =>
      (h.mirrors id st (hstore ▸ hget) p hp ((hf p).id.symm.trans hid)).sameDeal (hf p)
  queued := by
    intro o ho
    obtain ⟨p, hp, hid⟩ := h.queued o (hqueue ▸ ho)
    exact ⟨f p, hpos ▸ List.mem_map.2 ⟨p, hp, rfl⟩, (hf p).id.trans hid⟩
  closed := by
    intro o ho hnone
    rw [hpos]
    exact List.forall_mem_map.2 fun p hp hid =>
      (hf p).closedAt (h.closed o (hqueue ▸ ho) (hstore ▸ hnone) p hp ((hf p).id.symm.trans hid))

theorem sameDeal_close (hits : LivePosition → Bool) (reason : String) (now : DateTime) (p : LivePosition) :
    SameDeal p (if hits p ∧ p.closedAt.isNone then
      { p with closedAt := some now, closeReason := some reason } else p) := by
  split
  · exact ⟨rfl, rfl, rfl, rfl, rfl, rfl, fun _ => rfl⟩
  · exact .refl p

theorem Kept.closeRows (h : Kept s) (hits : LivePosition → Bool) (mark value : LivePosition → Option ℚ)
    (reason : String) (now : DateTime) : Kept (closeRows hits mark value reason now s) :=
  h.map _ (sameDeal_close hits reason now) rfl rfl rfl

theorem Kept.recordTick (h : Kept s) (markOk : Bool) (mark : ℚ) (pos : PositionTickOutcomes) :
    Kept (recordTick markOk mark pos s) := by
  cases markOk with
  | false => exact h.congr rfl rfl fun _ ho => ho
  | true =>
    refine h.map _ (fun p => ?_) rfl rfl rfl
    split
    · exact ⟨rfl, rfl, rfl, rfl, rfl, rfl, fun h => h⟩
    · exact .refl p

/-- A state may leave the store once its row is closed. -/
theorem Kept.remove (h : Kept s) {id : Uuid} (hgone : ∀ p ∈ s.positions, p.id = id → p.closedAt.isSome) :
    Kept { s with bridge.bridge.store := s.store.remove id } where
  ids := h.ids
  unreduced := h.unreduced
  own := ownIds_step h.own (.remove id)
  listed := by
    intro id' st hget
    rw [Desk.store, LivePositionStore.get_remove] at hget
    split at hget
    · cases hget
    · exact h.listed id' st hget
  mirrors := by
    intro id' st hget
    rw [Desk.store, LivePositionStore.get_remove] at hget
    split at hget
    · cases hget
    · exact h.mirrors id' st hget
  queued := h.queued
  closed := by
    intro o ho hnone
    rw [Desk.store, LivePositionStore.get_remove] at hnone
    split at hnone
    next hid => exact fun p hp hp' => hgone p hp (hp'.trans hid)
    next => exact h.closed o ho hnone

theorem isSome_of_closeRows {hits : LivePosition → Bool} {mark value : LivePosition → Option ℚ} {reason : String}
    {now : DateTime} (hp' : p' ∈ (Worker.closeRows hits mark value reason now s).positions)
    (hhits : ∀ p, p.id = p'.id → hits p = true) : p'.closedAt.isSome := by
  obtain ⟨p, hp, rfl⟩ := List.mem_map.1 hp'
  have hid := (sameDeal_close hits reason now p).id
  have hhit := hhits p hid.symm
  cases hclosed : p.closedAt <;> simp [hhit, hclosed]

theorem Kept.closeFromTick (h : Kept s) (i : SweepInput) (mark : ℚ) (pos : PositionTickOutcomes)
    (reason : CloseReason) : Kept (closeFromTick i mark pos reason s) := by
  unfold Worker.closeFromTick
  split
  next =>
    refine Kept.remove (h.closeRows _ _ _ _ _) fun p hp hid => ?_
    exact isSome_of_closeRows hp fun q hq => beq_iff_eq.2 (hq.trans hid)
  next => exact h

theorem Kept.dispatchTick (h : Kept s) (i : SweepInput) (markOk : Bool) (mark : ℚ)
    (pos : PositionTickOutcomes) : Kept (dispatchTick i markOk mark pos s) := by
  unfold Worker.dispatchTick
  simp only
  split
  · exact (h.recordTick markOk mark pos).closeFromTick i mark pos _
  · exact h.recordTick markOk mark pos

/-! ### Positions that are opened -/

theorem buildLiveState_mirrors {id : Uuid} {live : InsertLivePosition} {now : DateTime}
    (h : buildLiveState id live now = some st) (hside : live.side = "BUY" ∨ live.side = "SELL") :
    st.id = id ∧ Mirrors st { live with id := id, openedAt := now, closedAt := none, closeReason := none } := by
  rcases hside with hside | hside
  all_goals
    unfold buildLiveState at h
    rw [hside] at h
    simp only [Option.bind_eq_bind, Option.bind_eq_some_iff] at h
    obtain ⟨segment, hsegment, side, hst, h⟩ := h
    obtain rfl := Option.some.inj hst
    obtain rfl := Option.some.inj h
    exact ⟨rfl, hsegment, by simp [hside], rfl, rfl⟩

theorem get_loadState {id i : Uuid} {live : InsertLivePosition} {now : DateTime} {store : LivePositionStore}
    (h : (loadState id live now store).get i = some st) :
    buildLiveState id live now = some st ∧ st.id = i ∨ store.get i = some st := by
  unfold loadState at h
  split at h
  next state hstate =>
    rw [LivePositionStore.get_upsert] at h
    split at h
    next hi =>
      obtain rfl := Option.some.inj h
      exact .inl ⟨hstate, hi.symm⟩
    next => exact .inr h
  next => exact .inr h

theorem get_loadState_none {id i : Uuid} {live : InsertLivePosition} {now : DateTime} {store : LivePositionStore}
    (h : (loadState id live now store).get i = none) : store.get i = none := by
  unfold loadState at h
  split at h
  next =>
    rw [LivePositionStore.get_upsert] at h
    split at h
    next => cases h
    next => exact h
  next => exact h

theorem Kept.opens {i : DispatchInput} {b' : Bridge} {s' : Desk} (h : Kept s)
    (hopens : Opens i s.bridge.bridge b') (hs' : s'.bridge.bridge = b') (hqueue : s'.dispatching = s.dispatching)
    (hfresh : ∀ id, i.insertPosition = .ok id → ∀ p ∈ s.positions, p.id ≠ id) : Kept s' := by
  rcases hopens with ⟨hpos, hstore⟩ | ⟨hid, hpos, hstore⟩
  · refine h.congr ?_ ?_ fun o ho => hqueue ▸ ho
    · rw [Desk.positions, hs', hpos]; rfl
    · rw [Desk.store, hs', hstore]; rfl
  · rename_i orgId userId row mode id
    set live := positionOf i.entry.cfg orgId userId row mode with hlive
    have hside : live.side = "BUY" ∨ live.side = "SELL" := liveSide_cases row.direction
    have hnew := hfresh id hid
    have hpos' : s'.positions =
        s.positions ++ [{ live with id := id, openedAt := i.now, closedAt := none, closeReason := none }] := by
      rw [Desk.positions, hs', hpos]; rfl
    have hstore' : s'.store = loadState id live i.now s.store := by
      rw [Desk.store, hs', hstore]; rfl
    constructor
    case ids =>
      rw [hpos', List.map_append, List.nodup_append]
      refine ⟨h.ids, List.nodup_singleton _, ?_⟩
      rintro a ha b hb rfl
      obtain ⟨p, hp, rfl⟩ := List.mem_map.1 ha
      exact hnew p hp (List.mem_singleton.1 hb)
    case unreduced =>
      rw [hpos']
      exact List.forall_mem_append.2 ⟨h.unreduced, List.forall_mem_singleton.2 ⟨hside, rfl, sizeFromRisk_pos⟩⟩
    case own =>
      rw [hstore']
      intro i st hget
      rcases get_loadState hget with ⟨-, hi⟩ | hold
      · exact hi
      · exact h.own i st hold
    case listed =>
      rw [hstore', hpos']
      intro i st hget
      rcases get_loadState hget with ⟨hst, hi⟩ | hold
      · exact ⟨_, List.mem_append_right _ (List.mem_singleton_self _), by
          rw [← hi, (buildLiveState_mirrors hst hside).1]⟩
      · obtain ⟨p, hp, hpi⟩ := h.listed i st hold
        exact ⟨p, List.mem_append_left _ hp, hpi⟩
    case mirrors =>
      rw [hstore', hpos']
      intro i st hget p hp hpi
      rcases get_loadState hget with ⟨hst, hi⟩ | hold
      · obtain ⟨hsid, hmirrors⟩ := buildLiveState_mirrors hst hside
        rcases List.mem_append.1 hp with hp | hp
        · exact absurd (hpi.trans (hi.symm.trans hsid)) (hnew p hp)
        · rw [List.mem_singleton.1 hp]
          exact hmirrors
      · rcases List.mem_append.1 hp with hp | hp
        · exact h.mirrors i st hold p hp hpi
        · obtain ⟨q, hq, hqi⟩ := h.listed i st hold
          rw [List.mem_singleton.1 hp] at hpi
          exact absurd (hqi.trans hpi.symm) (hnew q hq)
    case queued =>
      rw [hqueue, hpos']
      intro o ho
      obtain ⟨p, hp, hpo⟩ := h.queued o ho
      exact ⟨p, List.mem_append_left _ hp, hpo⟩
    case closed =>
      rw [hqueue, hpos', hstore']
      intro o ho hnone p hp hpo
      rcases List.mem_append.1 hp with hp | hp
      · exact h.closed o ho (get_loadState_none hnone) p hp hpo
      · obtain ⟨q, hq, hqo⟩ := h.queued o ho
        rw [List.mem_singleton.1 hp] at hpo
        exact absurd (hqo.trans hpo.symm) (hnew q hq)

/-! ### Hydration and the evaluation of a key -/

theorem toState_mirrors (h : toState (rowOf p) = some st) (hside : p.side = "BUY" ∨ p.side = "SELL") :
    st.id = p.id ∧ Mirrors st p := by
  rcases hside with hside | hside
  all_goals
    unfold toState at h
    simp only [rowOf, hside] at h
    cases hmode : p.mode
    all_goals
      rw [hmode] at h
      simp only [Option.bind_eq_bind, Option.bind_eq_some_iff] at h
      obtain ⟨mode, -, segment, hsegment, side, hst, h⟩ := h
      obtain rfl := Option.some.inj hst
      obtain rfl := Option.some.inj h
      exact ⟨rfl, hsegment, by simp [hside], rfl, rfl⟩

theorem Kept.hydrate (h : Kept s) : Kept (deskStep s .hydrate) := by
  -- what is read back is the state of an open row
  have hread {i : Uuid} {st : LivePositionState} (hget : (deskStep s .hydrate).store.get i = some st) :
      (∃ p ∈ s.positions, p.id = i ∧ Mirrors st p) ∨ s.store.get i = some st := by
    rcases Option.or_eq_some_iff.1 ((get_foldl_upsert _ _ _).symm.trans hget) with hnew | ⟨-, hold⟩
    · obtain ⟨hmem, hi⟩ := List.mem_filter.1 (List.mem_of_getLast? hnew)
      obtain ⟨row, hrow, hst⟩ := List.mem_filterMap.1 hmem
      obtain ⟨p, hp, rfl⟩ := List.mem_map.1 hrow
      have hp := List.mem_of_mem_filter hp
      obtain ⟨hid, hmirrors⟩ := toState_mirrors hst (h.unreduced p hp).side
      exact .inl ⟨p, hp, hid.symm.trans (of_decide_eq_true hi), hmirrors⟩
    · exact .inr hold
  refine ⟨h.ids, h.unreduced, ownIds_foldl_upsert h.own _, ?_, ?_, h.queued, ?_⟩
  · intro i st hget
    rcases hread hget with ⟨p, hp, hi, -⟩ | hold
    · exact ⟨p, hp, hi⟩
    · exact h.listed i st hold
  · intro i st hget p hp hpi
    rcases hread hget with ⟨q, hq, hqi, hmirrors⟩ | hold
    · obtain rfl := List.inj_on_of_nodup_map h.ids hp hq (hpi.trans hqi.symm)
      exact hmirrors
    · exact h.mirrors i st hold p hp hpi
  · intro o ho hnone
    exact h.closed o ho (Option.or_eq_none_iff.1 ((get_foldl_upsert _ _ _).symm.trans hnone)).2

theorem onTick_mirrors {m : ℚ} {at_ : DateTime} (h : Mirrors st p) :
    Mirrors (LivePositionStore.onTick m at_ st) p := ⟨h.segment, h.side, h.entryAvg, h.qtyFilled⟩

theorem get_updateMark_some {store : LivePositionStore} {key : TickKey} {m : ℚ} {at_ : DateTime} {i : Uuid}
    (h : (store.updateMark key m at_).2.get i = some st) :
    ∃ old, store.get i = some old ∧ (st = old ∨ st = LivePositionStore.onTick m at_ old) := by
  rw [LivePositionStore.get_updateMark] at h
  split at h
  · obtain ⟨old, hold, rfl⟩ := Option.map_eq_some_iff.1 h
    exact ⟨old, hold, .inr rfl⟩
  · exact ⟨st, h, .inl rfl⟩

theorem Kept.price (h : Kept s) (i : SweepInput) (key : TickKey) : Kept (deskStep s (.price i key)) := by
  simp only [deskStep]
  split
  next => exact h.congr rfl rfl fun o ho => nomatch ho
  next tick htick =>
    -- every outcome is about a position of the store
    have houtcome : ∀ o ∈ (evaluateTick s.store key tick.mid tick.receivedAt .default .default).1,
        ∃ st, s.store.get o.2.positionId = some st := by
      intro o ho
      have hid : o.2.positionId = o.1.id := by
        obtain ⟨i, -, ho⟩ := List.mem_filterMap.1 ho
        obtain ⟨st, -, rfl⟩ := Option.map_eq_some_iff.1 ho
        rfl
      rw [hid]
      exact Option.isSome_iff_exists.1 (mem_allIds.1 (get_of_mem_evaluateTick h.own ho))
    refine ⟨h.ids, h.unreduced, ownIds_step h.own (.updateMark key tick.mid tick.receivedAt), ?_, ?_, ?_, ?_⟩
    · intro i st hget
      obtain ⟨old, hold, -⟩ := get_updateMark_some hget
      exact h.listed i old hold
    · intro i st hget p hp hpi
      obtain ⟨old, hold, rfl | rfl⟩ := get_updateMark_some hget
      · exact h.mirrors i st hold p hp hpi
      · exact onTick_mirrors (h.mirrors i old hold p hp hpi)
    · intro o ho
      obtain ⟨o', ho', rfl⟩ := List.mem_map.1 ho
      obtain ⟨st, hget⟩ := houtcome o' ho'
      exact h.listed _ st hget
    · intro o ho hnone
      obtain ⟨o', ho', rfl⟩ := List.mem_map.1 ho
      obtain ⟨st, hget⟩ := houtcome o' ho'
      change (s.store.updateMark key tick.mid tick.receivedAt).2.get _ = none at hnone
      rw [LivePositionStore.get_updateMark] at hnone
      split at hnone <;> simp [hget] at hnone

/-- **Every step** keeps rows, store and queue together. -/
theorem Kept.step (h : Kept s) (op : DeskOp) : Kept (deskStep s op) := by
  cases op with
  | enqueue id c now => exact h.congr rfl rfl fun _ ho => ho
  | claim c =>
    refine h.congr claim_frame.2 ?_ fun _ ho => ho
    change (claimRows c s.bridge.bridge).1.store = s.bridge.bridge.store
    unfold claimRows
    split <;> rfl
  | dispatch i =>
    exact h.opens (dispatchNext_opens (withKey s.positions i) s.bridge) rfl rfl fun id hid => withKey_fresh hid
  | hydrate => exact h.hydrate
  | price i key => exact h.price i key
  | outcome i markOk =>
    simp only [deskStep]
    split
    next => exact h
    next mark pos rest hrest =>
      refine Kept.dispatchTick ?_ i markOk mark pos
      exact h.congr rfl rfl fun o ho => hrest ▸ List.mem_cons_of_mem _ ho
  | timeStop t r =>
    simp only [deskStep]
    split
    · exact h.closeRows _ _ _ _ _
    · exact h
  | supersede setupId closeOk now =>
    simp only [deskStep]
    split
    · exact h.closeRows _ _ _ _ _
    · exact h

/-! ## One step -/

variable {i : SweepInput} {mark : ℚ} {slices : List Slice} {takerBps : Risk.MarketSegment → ℚ}

theorem fairRealized_eq : fairRealized takerBps p slices mark =
    sideSign p.side * ((mark - p.entryAvg) * p.qtyFilled)
      - feeRate takerBps p * (p.entryAvg + mark) * p.qtyFilled
      - (sideSign p.side - feeRate takerBps p) * missed slices mark :=
  slicedRealized_eq _ _ _ _ _ _

/-- `compute_realized_pnl` says what one fill of the whole quantity brings. -/
theorem computeRealizedPnl_eq {store : LivePositionStore} {id : Uuid} (hget : store.get id = some st)
    (hmirrors : Mirrors st p) (hfilled : 0 < p.qtyFilled) :
    computeRealizedPnl { i with takerBps := takerBps } store id mark =
      some (sideSign p.side * ((mark - p.entryAvg) * p.qtyFilled)
        - feeRate takerBps p * (p.entryAvg + mark) * p.qtyFilled) := by
  unfold computeRealizedPnl feeRate sideSign
  simp only [hget, Option.bind_eq_bind, Option.bind_some, hmirrors.segment, Option.getD_some, hmirrors.side,
    hmirrors.entryAvg, hmirrors.qtyFilled, if_neg (not_le.2 hfilled), Option.some.injEq]
  by_cases hside : p.side = "BUY"
  · simp only [if_pos hside]
    ring
  · simp only [if_neg hside]
    ring

theorem tick_fair_iff {store : LivePositionStore} {id : Uuid} (hget : store.get id = some st)
    (hmirrors : Mirrors st p) (hfilled : 0 < p.qtyFilled) :
    computeRealizedPnl { i with takerBps := takerBps } store id mark =
      some (fairRealized takerBps p slices mark) ↔ TickFair takerBps p slices mark := by
  rw [computeRealizedPnl_eq hget hmirrors hfilled, fairRealized_eq, Option.some.injEq, TickFair]
  constructor
  · intro h
    linear_combination h
  · intro h
    linear_combination h

theorem mtm_fair_iff (hp : Unreduced p) (hmark : p.lastMark = some mark) :
    some (mtmRealized p) = some (fairRealized takerBps p slices mark) ↔ MtmFair takerBps p slices mark := by
  rw [fairRealized_eq, Option.some.injEq, MtmFair, mtmRealized, hmark, Option.map_some, Option.getD_some,
    hp.remaining]
  constructor
  · intro h
    linear_combination h
  · intro h
    linear_combination h

/-- **Two closers** that find the same position at the same mark agree exactly when there is no fee to pay,
whatever was filled before. -/
theorem closers_agree_iff {store : LivePositionStore} {id : Uuid} (hget : store.get id = some st)
    (hmirrors : Mirrors st p) (hp : Unreduced p) (hmark : p.lastMark = some mark) :
    computeRealizedPnl { i with takerBps := takerBps } store id mark = some (mtmRealized p) ↔
      feeRate takerBps p * (p.entryAvg + mark) * p.qtyFilled = 0 := by
  rw [computeRealizedPnl_eq hget hmirrors hp.filled, Option.some.injEq, mtmRealized, hmark, Option.map_some,
    Option.getD_some, hp.remaining]
  constructor
  · intro h
    linear_combination -h
  · intro h
    linear_combination -h

/-- The closures of an UPDATE are right when those of before are and each row it closes is given what is right. -/
theorem pnlRight_closeRows {hits : LivePosition → Bool} {mark value : LivePosition → Option ℚ} {reason : String}
    {now : DateTime} : PnlRight (Worker.closeRows hits mark value reason now s) ↔
      PnlRight s ∧ ∀ p ∈ s.positions, p.closedAt = none → hits p = true →
        Closure.Fair s.takerBps ⟨p, mark p, slicesOf s.scaleEvents p.id, reason, value p⟩ := by
  unfold PnlRight Worker.closeRows
  rw [List.forall_mem_append, List.forall_mem_map]
  refine and_congr_right fun _ => forall_congr' fun p => ?_
  simp only [List.mem_filter, Bool.and_eq_true, Option.isNone_iff_eq_none, and_imp]
  exact forall_congr' fun _ => forall_comm

theorem pnlRight_closeSetupRows (h : Kept s) {setupId : Uuid} {reason : String} {now : DateTime} :
    PnlRight (closeSetupRows setupId reason now s) ↔
      PnlRight s ∧ ∀ p ∈ s.positions, p.closedAt = none → p.setupId = some setupId →
        ∀ mark ∈ p.lastMark, MtmFair s.takerBps p (slicesOf s.scaleEvents p.id) mark := by
  refine pnlRight_closeRows.trans (and_congr_right fun _ => ?_)
  simp only [beq_iff_eq]
  refine forall_congr' fun p => forall_congr' fun hp => forall_congr' fun _ => forall_congr' fun _ => ?_
  exact forall_congr' fun m => forall_congr' fun hm => mtm_fair_iff (h.unreduced p hp) hm

/-- The condition of `TickFair` does not read the mark that was flushed. -/
theorem forall_recordTick {markOk : Bool} {m : ℚ} {pos : PositionTickOutcomes} {Q : LivePosition → Prop}
    (hQ : ∀ p, Q { p with lastMark := some m } ↔ Q p) :
    (∀ p ∈ (recordTick markOk m pos s).positions, Q p) ↔ ∀ p ∈ s.positions, Q p := by
  cases markOk with
  | false => rfl
  | true =>
    change (∀ p ∈ flushMark pos.positionId m s.positions, Q p) ↔ _
    rw [flushMark, List.forall_mem_map]
    refine forall₂_congr fun p _ => ?_
    split
    · exact hQ p
    · rfl

theorem pnlRight_closeFromTick (h : Kept s) {pos : PositionTickOutcomes} {r : CloseReason}
    (hheld : s.store.get pos.positionId = none → ∀ p ∈ s.positions, p.id = pos.positionId → p.closedAt.isSome) :
    PnlRight (closeFromTick i mark pos r s) ↔
      PnlRight s ∧ ∀ p ∈ s.positions, p.closedAt = none → i.closeOk pos.positionId = true ∧
        p.id = pos.positionId → TickFair s.takerBps p (slicesOf s.scaleEvents p.id) mark := by
  unfold closeFromTick
  split
  next hok =>
    change PnlRight (closeRows (·.id == pos.positionId) _ _ r.asDbStr i.now s) ↔ _
    rw [pnlRight_closeRows]
    refine and_congr_right fun _ => ?_
    simp only [beq_iff_eq, hok, true_and]
    refine forall₂_congr fun p hp => forall₂_congr fun hopen hid => ?_
    simp only [Closure.Fair, Option.mem_some_iff, forall_eq']
    cases hget : s.store.get pos.positionId with
    | none =>
      have := hheld hget p hp hid
      simp [hopen] at this
    | some st =>
      exact tick_fair_iff hget (h.mirrors _ st hget p hp hid) (h.unreduced p hp).filled
  next hok => simp [hok]

theorem pnlRight_dispatchTick (h : Kept s) {markOk : Bool} {pos : PositionTickOutcomes}
    (hheld : s.store.get pos.positionId = none → ∀ p ∈ s.positions, p.id = pos.positionId → p.closedAt.isSome) :
    PnlRight (dispatchTick i markOk mark pos s) ↔
      PnlRight s ∧ ∀ p ∈ s.positions, p.closedAt = none → (closingReason s.store mark pos).isSome ∧
        i.closeOk pos.positionId = true ∧ p.id = pos.positionId →
          TickFair s.takerBps p (slicesOf (if pos.hasAction then s.scaleEvents ++ scaleRows pos mark
            else s.scaleEvents) p.id) mark := by
  have hstore : (recordTick markOk mark pos s).store = s.store := rfl
  have hright : PnlRight (recordTick markOk mark pos s) ↔ PnlRight s := Iff.rfl
  unfold dispatchTick
  simp only [hstore]
  cases hreason : closingReason s.store mark pos with
  | none => simp [hright]
  | some r =>
    rw [pnlRight_closeFromTick (h.recordTick markOk mark pos) (fun hnone => (forall_recordTick fun p => Iff.rfl).2
      (hheld hnone)), hright, forall_recordTick fun p => Iff.rfl]
    simp [recordTick]

/-- **One step** keeps the values right exactly when it closes fairly. -/
theorem pnlRight_deskStep (h : Kept s) (op : DeskOp) :
    PnlRight (deskStep s op) ↔ PnlRight s ∧ ClosesFairly s op := by
  cases op with
  | outcome i markOk =>
    cases hrest : s.dispatching with
    | nil => simp [deskStep, hrest, ClosesFairly, closes]
    | cons head rest =>
      obtain ⟨mark, pos⟩ := head
      simp only [deskStep, hrest, ClosesFairly, closes, FairAt, Bool.and_eq_true, beq_iff_eq, and_assoc]
      have hkept : Kept { s with dispatching := rest } :=
        h.congr rfl rfl fun o ho => hrest ▸ List.mem_cons_of_mem _ ho
      refine pnlRight_dispatchTick hkept ?_
      exact h.closed (mark, pos) (hrest ▸ List.mem_cons_self)
  | timeStop t r =>
    simp only [deskStep, ClosesFairly, closes, FairAt, Bool.and_eq_true, beq_iff_eq]
    split
    next hdue =>
      refine (pnlRight_closeSetupRows h).trans ?_
      simp [hdue]
    next hdue => simp [hdue]
  | supersede setupId closeOk now =>
    simp only [deskStep, ClosesFairly, closes, FairAt, Bool.and_eq_true, beq_iff_eq]
    split
    next hok =>
      refine (pnlRight_closeSetupRows h).trans ?_
      simp [hok]
    next hok => simp [hok]
  | price i key =>
    have hclosures : PnlRight (deskStep s (.price i key)) ↔ PnlRight s := by
      simp only [deskStep]
      split <;> rfl
    simp [hclosures, ClosesFairly, closes]
  | _ =>
    refine (and_iff_left ?_).symm
    intro _ _ _ hno
    cases hno

/-! ## Every run -/

/-- **The stored values are right** in every state of a run exactly when every step closes fairly. -/
theorem realized_iff (setups : List SetupRow) (takerBps : Risk.MarketSegment → ℚ) (ops : List DeskOp) :
    AllStates deskStep PnlRight (.start setups takerBps) ops ↔
      AllSteps deskStep ClosesFairly (.start setups takerBps) ops := by
  apply allStates_iff_allSteps_of_iff (J := Kept) (K := fun _ => True)
  · exact fun s op h _ => h.step op
  · exact fun s op h _ => pnlRight_deskStep h op
  · exact .start setups takerBps
  · exact fun _ _ => trivial
  · exact fun c hc => nomatch hc

/-- A long of 2 from 100 with half of it to be taken at 110. -/
def halfAt110 : InsertSelectedCandidate := { longTo110 "live" with tpLadder := ⟨some 110, some [⟨110, 1, 0⟩]⟩ }

/-- The long is opened, half of it is taken at 110, and the market comes to 94. -/
def takenAt110 (stopped : Bool) : List DeskOp :=
  [.enqueue 1 halfAt110 0, .claim claimAll, .dispatch (dispatchAt 100), .price (marketAt 110) liveBtc,
    .outcome (marketAt 110) true, .price (marketAt 94) liveBtc,
    .outcome { marketAt 94 with closeOk := fun _ => stopped } true]

/-- Half made 10 and half lost 6. The dispatcher books a loss of 12 and the fee on it, the time stop one of 12. -/
theorem partial_fill_is_booked_as_loss :
    let afterStop := run deskStep (.start [] fun _ => 5) (takenAt110 true)
    let afterTimeStop := run deskStep (.start [] fun _ => 5)
      (takenAt110 false ++ [.timeStop ⟨12, 24, 100000, true⟩ ⟨7, "15m", "t", 0, .armed, none, none⟩])
    ¬ AllStates deskStep PnlRight (.start [] fun _ => 5) (takenAt110 true)
      ∧ afterStop.closures.map (·.realizedPnlQuote) = [some (-12 - 97 / 500)]
      ∧ afterStop.closures.map (fun c => fairRealized (fun _ => 5) c.row c.slices 94) = [4 - 101 / 500]
      ∧ afterTimeStop.closures.map (·.realizedPnlQuote) = [some (-12)]
      ∧ afterTimeStop.closures.map (·.slices) = afterStop.closures.map (·.slices) := by
  decide +kernel

end Qtss.Worker
