import Qtss.Worker.BridgeDispatch
import Qtss.Worker.SetupWatcher
/-
# What the execution bridge books

`booksAgree_iff`: when a `placed` candidate has a position, and a candidate that a gate stopped can be tried
again. `ordersTracked_iff`: when every order that the broker accepted has a position, and no setup with such an
order is closed as "never opened". `dispatched_once`: no candidate is dispatched twice.

The first fails in the dry dispatch, which is `Ok` whatever `build_live_position_for_mode` says, and at
every gate. The second fails after the broker's answer: a failed `exchange_orders` insert returns early,
before the `live_positions` insert, into the branch that is there for orders that were never placed; a
failed `live_positions` insert is only logged.
-/

namespace Qtss.Worker
open Storage Keyed Runs

variable {i : DispatchInput} {row : SelectedCandidateRow} {dryEnabled liveEnabled : Bool} {b : Bridge}
  {live : InsertLivePosition} {positions : PositionTable}

/-! ## Only dispatches decide -/

/-- The row that is dispatched next is a good one. -/
def NextGood (Good : DispatchInput → SelectedCandidateRow → BridgeWorker → Prop) (w : BridgeWorker) :
    BridgeOp → Prop
  | .dispatch i => ∀ row ∈ w.tick.rows.head?, Good i row w
  | _ => True

/-- An invariant that the other steps keep, that a good row keeps, and that shows when a bad row is dispatched. -/
theorem allStates_iff_nextGood {Good : DispatchInput → SelectedCandidateRow → BridgeWorker → Prop}
    {J P : BridgeWorker → Prop} (hJP : ∀ w, J w → P w)
    (henqueue : ∀ w id c now, J w → J (bridgeStep w (.enqueue id c now)))
    (hclaim : ∀ w c, J w → J (bridgeStep w (.claim c)))
    (hclose : ∀ w id reason now, J w → J (bridgeStep w (.closePosition id reason now)))
    (good : ∀ w i row rows, J w → w.tick.rows = row :: rows → Good i row w → J (dispatchNext i w))
    (bad : ∀ w i row rows, J w → w.tick.rows = row :: rows → ¬ Good i row w → ¬ P (dispatchNext i w))
    {w : BridgeWorker} (hw : J w) (ops : List BridgeOp) :
    AllStates bridgeStep P w ops ↔ AllSteps bridgeStep (NextGood Good) w ops := by
  apply allStates_iff_allSteps (J := J) (K := fun _ => True) hJP
  · intro w o h _ hgood
    cases o with
    | enqueue id c now => exact henqueue w id c now h
    | claim c => exact hclaim w c h
    | closePosition id reason now => exact hclose w id reason now h
    | dispatch i =>
      cases hrows : w.tick.rows with
      | nil =>
        rw [dispatch_done hrows]
        exact h
      | cons row rows => exact good w i row rows h hrows (hgood row (by simp [hrows]))
  · intro w o h _ hbad
    cases o with
    | enqueue id c now => exact absurd trivial hbad
    | claim c => exact absurd trivial hbad
    | closePosition id reason now => exact absurd trivial hbad
    | dispatch i =>
      cases hrows : w.tick.rows with
      | nil => exact absurd (by simp [NextGood, hrows]) hbad
      | cons row rows =>
        apply bad w i row rows h hrows
        intro hgood
        apply hbad
        intro row' hrow'
        obtain rfl : row = row' := by simpa [hrows] using hrow'
        exact hgood
  · exact hw
  · exact fun _ _ => trivial

/-! ## Placed candidates and their positions -/

/-- There is a position of the setup. -/
def HasPosition (positions : PositionTable) (setupId : Uuid) : Prop :=
  ∃ p ∈ positions, p.setupId = some setupId

instance {setupId : Uuid} : Decidable (HasPosition positions setupId) :=
  inferInstanceAs (Decidable (∃ p ∈ positions, p.setupId = some setupId))

/-- A later tick can pick the candidate up. -/
def Reevaluable (t : CandidateTable) (id : ℕ) : Prop := ∃ c ∈ t.lookup id, c.status = .pending

theorem reevaluable_iff {t : CandidateTable} {id : ℕ} :
    Reevaluable t id ↔ ∃ limit, id ∈ t.picked (fun _ => false) limit := by
  constructor
  · rintro ⟨c, hc, hpending⟩
    refine ⟨t.entries.length, List.mem_map.2 ⟨⟨id, c⟩, ?_, rfl⟩⟩
    rw [List.take_of_length_le]
    · apply (List.perm_insertionSort _ _).mem_iff.2
      exact List.mem_filter.2 ⟨AList.mem_lookup_iff.1 hc, by simp [hpending]⟩
    · rw [List.length_insertionSort]
      exact List.length_filter_le _ _
  · rintro ⟨limit, h⟩
    obtain ⟨c, hc, hpending, -⟩ := CandidateTable.mem_picked h
    exact ⟨c, hc, hpending⟩

instance {t : CandidateTable} {id : ℕ} : Decidable (Reevaluable t id) :=
  inferInstanceAs (Decidable (∃ c ∈ t.lookup id, c.status = .pending))

/-- A placed candidate has a position of its setup, and one that a gate stopped can be picked up again. -/
def BooksAgree (w : BridgeWorker) : Prop :=
  (∀ c ∈ values w.bridge.candidates, c.status = .placed → c.mode = "dry" ∨ c.mode = "live" →
    HasPosition w.bridge.positions c.setupId) ∧
  ∀ r ∈ w.bridge.reports, r.skipped ≠ none → Reevaluable w.bridge.candidates r.candidateId

instance {w : BridgeWorker} : Decidable (BooksAgree w) := inferInstanceAs (Decidable (_ ∧ _))

/-- No gate stops the dry candidate, and if its row is marked then there is a position: one of before, or the
one that is inserted. -/
structure DryRowGood (i : DispatchInput) (row : SelectedCandidateRow) (positions : PositionTable) :
    Prop where
  unskipped : Resolved i.entry.cfg .dry → gateStops i.entry positions row .dry = none
  position : i.markPlacedOk → HasPosition positions row.setupId ∨
    Resolved i.entry.cfg .dry ∧ i.insertPosition.isOk

/-- No gate stops the live candidate, and if the broker accepts its order, the order is written down and the
row is marked, then there is a position: one of before, or the one that is inserted. -/
structure LiveRowGood (i : DispatchInput) (row : SelectedCandidateRow) (positions : PositionTable) :
    Prop where
  unskipped : Resolved i.entry.cfg .live → gateStops i.entry positions row .live = none
  position : BrokerAcks i row positions → i.insertOrder.isOk → i.markPlacedOk →
    HasPosition positions row.setupId ∨ i.insertPosition.isOk

def RowGood (i : DispatchInput) (row : SelectedCandidateRow) (dryEnabled liveEnabled : Bool)
    (positions : PositionTable) : Prop :=
  (row.mode = "dry" → dryEnabled → DryRowGood i row positions) ∧
  (row.mode = "live" → liveEnabled → LiveRowGood i row positions)

def DispatchGood : BridgeWorker → BridgeOp → Prop :=
  NextGood fun i row w => RowGood i row w.tick.dryEnabled w.tick.liveEnabled w.bridge.positions

theorem hasPosition_insertLive {id setupId : Uuid} {now : DateTime} :
    HasPosition (positions.insertLive live id now) setupId ↔
      HasPosition positions setupId ∨ live.setupId = some setupId := by
  unfold HasPosition
  simp only [PositionTable.mem_insertLive]
  constructor
  · rintro ⟨p, hp | rfl, hsetup⟩
    · exact .inl ⟨p, hp, hsetup⟩
    · exact .inr hsetup
  · rintro (⟨p, hp, hsetup⟩ | hsetup)
    · exact ⟨p, .inl hp, hsetup⟩
    · exact ⟨_, .inr rfl, hsetup⟩

theorem Booked.mono {d : Dispatched} {setupId : Uuid} (h : Booked i row positions d)
    (hp : HasPosition positions setupId) : HasPosition d.bridge.positions setupId := by
  cases h with
  | none hpos hsame => exact hsame ▸ hp
  | inserted hpos hinsert => exact hinsert ▸ hasPosition_insertLive.2 (.inl hp)

theorem Booked.hasPosition_iff {d : Dispatched} (h : Booked i row positions d) :
    HasPosition d.bridge.positions row.setupId ↔
      HasPosition positions row.setupId ∨ d.position.isSome := by
  cases h with
  | none hpos hsame => simp [hpos, hsame]
  | inserted hpos hinsert hsetup => simp [hpos, hinsert, hasPosition_insertLive, hsetup]

/-- What a row has to meet, told by what its dispatch does. -/
def SettlesWell (i : DispatchInput) (row : SelectedCandidateRow) (dryEnabled liveEnabled : Bool)
    (b : Bridge) : Prop :=
  skippedBy i row dryEnabled liveEnabled b = none ∧
  ((row.mode = "dry" ∨ row.mode = "live") → (dispatch i row dryEnabled liveEnabled b).result.isOk →
    i.markPlacedOk → HasPosition (dispatch i row dryEnabled liveEnabled b).bridge.positions row.setupId)

theorem settlesWell_dry (hdry : row.mode = "dry") : SettlesWell i row dryEnabled liveEnabled b ↔
    (dryEnabled → DryRowGood i row b.positions) := by
  have hbooked := dispatch_booked i row dryEnabled liveEnabled b
  obtain ⟨hresult, -, hposition⟩ := dispatchDry_spec i row b
  unfold SettlesWell
  rw [hbooked.hasPosition_iff, dispatch_dry hdry]
  cases dryEnabled with
  | false => simp [skippedBy, hdry, Except.isOk, Except.toBool]
  | true =>
    have hskip : skippedBy i row true liveEnabled b = none ↔
        (Resolved i.entry.cfg .dry → gateStops i.entry b.positions row .dry = none) := by
      simp [skippedBy, hdry]
    rw [if_pos rfl, hposition, hresult, hskip]
    constructor
    · rintro ⟨hgate, hp⟩ -
      refine ⟨hgate, fun hmark => ?_⟩
      exact (hp (.inl hdry) rfl hmark).imp_right fun h => ⟨h.1.1, h.2⟩
    · intro h
      obtain ⟨hgate, hp⟩ := h rfl
      refine ⟨hgate, fun _ _ hmark => ?_⟩
      exact (hp hmark).imp_right fun h => ⟨⟨h.1, hgate h.1⟩, h.2⟩

theorem settlesWell_live (hlive : row.mode = "live") : SettlesWell i row dryEnabled liveEnabled b ↔
    (liveEnabled → LiveRowGood i row b.positions) := by
  have hbooked := dispatch_booked i row dryEnabled liveEnabled b
  obtain ⟨-, hresult, hposition⟩ := dispatchLive_spec i row b
  unfold SettlesWell
  rw [hbooked.hasPosition_iff, dispatch_live hlive]
  cases liveEnabled with
  | false => simp [skippedBy, hlive, Except.isOk, Except.toBool]
  | true =>
    have hskip : skippedBy i row dryEnabled true b = none ↔
        (Resolved i.entry.cfg .live → gateStops i.entry b.positions row .live = none) := by
      simp [skippedBy, hlive]
    rw [if_pos rfl, hposition, hresult, hskip]
    constructor
    · rintro ⟨hgate, hp⟩ -
      refine ⟨hgate, fun hacks horder hmark => ?_⟩
      exact (hp (.inr hlive) ⟨hacks, horder⟩ hmark).imp_right fun h => h.2
    · intro h
      obtain ⟨hgate, hp⟩ := h rfl
      refine ⟨hgate, fun _ hok hmark => ?_⟩
      exact (hp hok.1 hok.2 hmark).imp_right fun h => ⟨hok, h⟩

theorem settlesWell_iff :
    SettlesWell i row dryEnabled liveEnabled b ↔ RowGood i row dryEnabled liveEnabled b.positions := by
  unfold RowGood
  by_cases hdry : row.mode = "dry"
  · rw [settlesWell_dry hdry]
    simp [hdry]
  by_cases hlive : row.mode = "live"
  · rw [settlesWell_live hlive]
    simp [hlive]
  · have hskip : skippedBy i row dryEnabled liveEnabled b = none := by
      unfold skippedBy
      split <;> simp_all
    simp [SettlesWell, hskip, hdry, hlive]

/-- What carries the run: the claimed rows are in the table and no longer pending, and so far no gate has
stopped anything. -/
structure InOrder (w : BridgeWorker) : Prop where
  placed : ∀ id c, w.bridge.candidates.lookup id = some c → c.status = .placed →
    c.mode = "dry" ∨ c.mode = "live" → HasPosition w.bridge.positions c.setupId
  unskipped : ∀ r ∈ w.bridge.reports, r.skipped = none
  claimed : ∀ row ∈ w.tick.rows, ∃ c, w.bridge.candidates.lookup row.id = some c ∧
    c.setupId = row.setupId ∧ c.mode = row.mode ∧ c.status ≠ .pending

variable {w : BridgeWorker}

theorem InOrder.start (positions : PositionTable) (setups : List SetupRow) :
    InOrder (.start positions setups) where
  placed id c h := by simp [BridgeWorker.start] at h
  unskipped r h := by simp [BridgeWorker.start] at h
  claimed row h := by simp [BridgeWorker.start] at h

theorem InOrder.agree (h : InOrder w) : BooksAgree w := by
  constructor
  · intro c hc
    obtain ⟨id, hc⟩ := (mem_values_iff _ _).1 hc
    exact h.placed id c hc
  · intro r hr hskip
    exact absurd (h.unskipped r hr) hskip

/-- A claimed row stays in the table through whatever keeps the rows. -/
theorem claimed_extends {t t' : CandidateTable} (hext : t.Extends t') {row : SelectedCandidateRow}
    (h : ∃ c, t.lookup row.id = some c ∧ c.setupId = row.setupId ∧ c.mode = row.mode
      ∧ c.status ≠ .pending) :
    ∃ c, t'.lookup row.id = some c ∧ c.setupId = row.setupId ∧ c.mode = row.mode
      ∧ c.status ≠ .pending := by
  obtain ⟨c, hc, hsetup, hmode, hstatus⟩ := h
  obtain ⟨c', hc', hlater⟩ := hext _ _ hc
  exact ⟨c', hc', hlater.setupId.trans hsetup, hlater.mode.trans hmode,
    fun hp => hstatus (hlater.pending hp)⟩

theorem InOrder.enqueue (h : InOrder w) (id : ℕ) (c : InsertSelectedCandidate) (now : DateTime) :
    InOrder (bridgeStep w (.enqueue id c now)) where
  placed j c' hj hc' := h.placed j c' (CandidateTable.placed_of_insert hj hc') hc'
  unskipped := h.unskipped
  claimed row hrow := claimed_extends CandidateTable.extends_insert (h.claimed row hrow)

theorem InOrder.closePosition (h : InOrder w) (id : Uuid) (reason : String) (now : DateTime) :
    InOrder (bridgeStep w (.closePosition id reason now)) where
  placed j c hj hc hmode := by
    obtain ⟨p, hp, hsetup⟩ := h.placed j c hj hc hmode
    obtain ⟨p', hp', heq, -⟩ := PositionTable.mem_closeLive hp
    exact ⟨p', hp', by rw [heq]; exact hsetup⟩
  unskipped := h.unskipped
  claimed := h.claimed

theorem InOrder.claim (h : InOrder w) (c : ClaimInput) : InOrder (bridgeStep w (.claim c)) := by
  cases hok : c.claimOk with
  | false =>
    rw [claim_failed hok]
    exact ⟨h.placed, h.unskipped, by simp⟩
  | true =>
    rw [claim_succeeded hok]
    constructor
    · intro j c' hj hc'
      exact h.placed j c' (CandidateTable.placed_of_claimPending hj hc') hc'
    · exact h.unskipped
    · intro row hrow
      obtain ⟨-, hstatus⟩ := CandidateTable.status_of_claimed hrow
      refine ⟨row.toCandidate, (CandidateTable.mem_claimPending.1 hrow).2, rfl, rfl, ?_⟩
      rw [hstatus]
      exact nofun

/-- The row that settles well keeps the books in order. -/
theorem InOrder.dispatch (h : InOrder w) {rows : List SelectedCandidateRow} (hrows : w.tick.rows = row :: rows)
    (hwell : SettlesWell i row w.tick.dryEnabled w.tick.liveEnabled w.bridge) :
    InOrder (dispatchNext i w) := by
  have hbooked := dispatch_booked i row w.tick.dryEnabled w.tick.liveEnabled w.bridge
  obtain ⟨cr, hcr, hsetup, hmode, -⟩ := h.claimed row (by simp [hrows])
  rw [dispatchNext_cons hrows]
  constructor
  · intro j c hj hc hcmode
    simp only at hj ⊢
    rw [processRow_positions]
    rcases processRow_candidates i row w.tick.dryEnabled w.tick.liveEnabled w.bridge with
      ⟨hok, hmark, ht⟩ | ⟨msg, -, ht⟩ | ⟨-, ht⟩
    · rw [ht] at hj
      rcases CandidateTable.placed_of_markPlaced hj with hj | ⟨c', hc', hs, hm⟩
      · exact hbooked.mono (h.placed j c hj hc hcmode)
      · -- the row that has just been marked
        obtain rfl := Option.some.inj (hcr.symm.trans hc')
        rw [hs, hsetup]
        exact hwell.2 (by rwa [← hmode, ← hm]) hok hmark
    · rw [ht] at hj
      exact hbooked.mono (h.placed j c (CandidateTable.placed_of_markErrored hj hc) hc hcmode)
    · rw [ht] at hj
      exact hbooked.mono (h.placed j c hj hc hcmode)
  · obtain ⟨stamped, hreports, -, -⟩ := processRow_reports i row w.tick.dryEnabled
      w.tick.liveEnabled w.bridge
    intro r hr
    simp only [hreports] at hr
    rcases List.mem_append.1 hr with hr | hr
    · exact h.unskipped r hr
    · rw [List.mem_singleton.1 hr]
      exact hwell.1
  · intro row' hrow'
    have hmem : row' ∈ rows := by
      simp only at hrow'
      split at hrow'
      · exact hrow'
      · simp at hrow'
    exact claimed_extends (processRow_extends _ _ _ _ _) (h.claimed row' (by simp [hrows, hmem]))

/-- The row that does not settle well breaks what is seen of them. -/
theorem InOrder.dispatch_breaks (h : InOrder w) {rows : List SelectedCandidateRow}
    (hrows : w.tick.rows = row :: rows)
    (hwell : ¬ SettlesWell i row w.tick.dryEnabled w.tick.liveEnabled w.bridge) :
    ¬ BooksAgree (dispatchNext i w) := by
  obtain ⟨cr, hcr, hsetup, hmode, hstatus⟩ := h.claimed row (by simp [hrows])
  rintro ⟨hplaced, hopen⟩
  rw [dispatchNext_cons hrows] at hplaced hopen
  simp only at hplaced hopen
  apply hwell
  constructor
  · obtain ⟨stamped, hreports, -, -⟩ := processRow_reports i row w.tick.dryEnabled
      w.tick.liveEnabled w.bridge
    by_contra hskip
    -- the row is not pending, and no write makes it so
    obtain ⟨c, hc, hpending⟩ :=
      hopen _ (hreports ▸ List.mem_append_right _ (List.mem_singleton_self _)) hskip
    obtain ⟨c', hc', hlater⟩ := processRow_extends i row w.tick.dryEnabled w.tick.liveEnabled w.bridge _ _ hcr
    obtain rfl := Option.some.inj (hc'.symm.trans hc)
    exact hstatus (hlater.pending hpending)
  · intro hrowmode hok hmark
    rcases processRow_candidates i row w.tick.dryEnabled w.tick.liveEnabled w.bridge with
      ⟨-, -, ht⟩ | ⟨msg, hmsg, -⟩ | ⟨hnot, -⟩
    · obtain ⟨c, hc, hs, hm, hp⟩ := CandidateTable.lookup_markPlaced i.now hcr
      rw [← ht] at hc
      have := hplaced c ((mem_values_iff _ _).2 ⟨_, hc⟩) hp (by rwa [hm, hmode])
      rwa [processRow_positions, hs, hsetup] at this
    · rw [hmsg] at hok
      exact absurd hok nofun
    · exact absurd ⟨hok, hmark⟩ hnot

/-- **When the queue and the positions agree.** In every run of the bridge, whatever comes between two rows:
every placed candidate has a position and every candidate stopped by a gate can be tried again, in every
state, exactly when every row that is dispatched is a good one. -/
theorem booksAgree_iff (positions : PositionTable) (setups : List SetupRow) (ops : List BridgeOp) :
    AllStates bridgeStep BooksAgree (.start positions setups) ops ↔
      AllSteps bridgeStep DispatchGood (.start positions setups) ops := by
  apply allStates_iff_nextGood (J := InOrder)
  · intro w h
    exact h.agree
  · intro w id c now h
    exact h.enqueue id c now
  · intro w c h
    exact h.claim c
  · intro w id reason now h
    exact h.closePosition id reason now
  · intro w i row rows h hrows hgood
    exact h.dispatch hrows (settlesWell_iff.2 hgood)
  · intro w i row rows h hrows hbad
    exact h.dispatch_breaks hrows (mt settlesWell_iff.1 hbad)
  · exact .start positions setups

/-- A long at 100 with its stop at 95 and its target at 110. -/
def longTo110 (mode : String) : InsertSelectedCandidate where
  setupId := 7
  exchange := "binance"
  symbol := "BTCUSDT"
  timeframe := "15m"
  direction := "long"
  entryPrice := 100
  slPrice := 95
  tpLadder := ⟨some 110, none⟩
  riskPct := 1 / 100
  mode := mode
  venueClass := some "crypto"

/-- The defaults of the config keys, with ids for both modes, no closed bars and the market at `mark`. -/
def entryAt (mark : ℚ) : EntryInput where
  cfg := {
    dry := ⟨some 1, some 2, none⟩, live := ⟨some 1, some 3, none⟩, accountEquity := none,
    defaultSegment := "futures", leverage := 10, maintMarginRatio := none, confirmationEnabled := true,
    confirmationBarDirection := true, confirmationRsi := true, confirmationRsiThreshold := 50,
    minTpRemainingFraction := 1 / 2, aggregateNotionalFraction := 1, maxPositionFraction := 1,
    slippageBps := none }
  market := ⟨fun _ => [], fun _ => some mark, fun _ => none⟩
  countOk := true
  sumOk := true

/-- Every call of the dispatch succeeds. -/
def dispatchAt (mark : ℚ) : DispatchInput where
  entry := entryAt mark
  credentials := .ok true
  client := .ok ()
  venue := .ok ⟨11, some 12⟩
  insertOrder := .ok ()
  insertPosition := .ok 13
  markPlacedOk := true
  markErroredOk := true
  rejectOk := true
  now := 2

/-- A tick with both switches on. -/
def claimAll : ClaimInput := ⟨true, true, true, fun _ => false, 1⟩

/-- The market has come to 109 of a target of 110, the TP-proximity gate stops the dry candidate, and its
row is placed, with no position. -/
theorem gated_is_placed : ¬ AllStates bridgeStep BooksAgree (.start [] [])
    [.enqueue 1 (longTo110 "dry") 0, .claim claimAll, .dispatch (dispatchAt 109)] := by
  decide +kernel

/-! ## Once only -/

/-- The candidates that have been dispatched. -/
def dispatchedIds (w : BridgeWorker) : List ℕ := w.bridge.reports.map (·.candidateId)

/-- Nothing has been dispatched twice, nothing that is claimed has been dispatched, and neither is pending. -/
structure OnceOnly (w : BridgeWorker) : Prop where
  once : (dispatchedIds w).Nodup
  apart : (w.tick.rows.map (·.id)).Nodup ∧ ∀ id ∈ w.tick.rows.map (·.id), id ∉ dispatchedIds w
  taken : ∀ id, id ∈ dispatchedIds w ∨ id ∈ w.tick.rows.map (·.id) →
    ∃ c, w.bridge.candidates.lookup id = some c ∧ c.status ≠ .pending

theorem taken_extends {t t' : CandidateTable} (hext : t.Extends t') {id : ℕ}
    (h : ∃ c, t.lookup id = some c ∧ c.status ≠ .pending) :
    ∃ c, t'.lookup id = some c ∧ c.status ≠ .pending := by
  obtain ⟨c, hc, hstatus⟩ := h
  obtain ⟨c', hc', hlater⟩ := hext _ _ hc
  exact ⟨c', hc', fun hp => hstatus (hlater.pending hp)⟩

theorem OnceOnly.claim (h : OnceOnly w) (c : ClaimInput) : OnceOnly (bridgeStep w (.claim c)) := by
  cases hok : c.claimOk with
  | false =>
    rw [claim_failed hok]
    exact ⟨h.once, by simp, fun id hid => h.taken id (hid.imp_right fun hid => absurd hid (by simp))⟩
  | true =>
    rw [claim_succeeded hok]
    have hids := CandidateTable.ids_claimPending w.bridge.candidates c.locked batch c.now
    constructor
    · exact h.once
    · refine ⟨(CandidateTable.nodup_picked _ _ _).sublist hids, fun id hid hdone => ?_⟩
      obtain ⟨r, hr, hpending, -⟩ := CandidateTable.mem_picked (hids.subset hid)
      obtain ⟨r', hr', hstatus⟩ := h.taken id (.inl hdone)
      rw [hr] at hr'
      exact hstatus (Option.some.inj hr' ▸ hpending)
    · rintro id (hdone | hid)
      · exact taken_extends CandidateTable.extends_claimPending (h.taken id (.inl hdone))
      · obtain ⟨row, hrow, rfl⟩ := List.mem_map.1 hid
        obtain ⟨-, hstatus⟩ := CandidateTable.status_of_claimed hrow
        refine ⟨row.toCandidate, (CandidateTable.mem_claimPending.1 hrow).2, ?_⟩
        rw [hstatus]
        exact nofun

theorem OnceOnly.dispatch (h : OnceOnly w) {rows : List SelectedCandidateRow}
    (hrows : w.tick.rows = row :: rows) : OnceOnly (dispatchNext i w) := by
  obtain ⟨stamped, hreports, -, -⟩ := processRow_reports i row w.tick.dryEnabled
    w.tick.liveEnabled w.bridge
  have hids : dispatchedIds (dispatchNext i w) = dispatchedIds w ++ [row.id] := by
    simp [dispatchedIds, dispatchNext_cons hrows, hreports]
  have hrest : ((dispatchNext i w).tick.rows.map (·.id)).Sublist (rows.map (·.id)) := by
    rw [dispatchNext_cons hrows]
    simp only
    split
    · exact List.Sublist.refl _
    · exact List.nil_sublist _
  obtain ⟨hnodup, hnot⟩ := h.apart
  rw [hrows, List.map_cons] at hnodup hnot
  obtain ⟨hrow, hnodup⟩ := List.nodup_cons.1 hnodup
  constructor
  · rw [hids]
    exact List.nodup_append.2 ⟨h.once, List.nodup_singleton _, by
      rintro id hid _ hlast rfl
      exact hnot id (List.mem_singleton.1 hlast ▸ List.mem_cons_self) hid⟩
  · refine ⟨hnodup.sublist hrest, fun id hid hdone => ?_⟩
    have hid := hrest.subset hid
    rw [hids] at hdone
    rcases List.mem_append.1 hdone with hdone | hdone
    · exact hnot id (List.mem_cons_of_mem _ hid) hdone
    · exact hrow (List.mem_singleton.1 hdone ▸ hid)
  · intro id hid
    have hbefore : id ∈ dispatchedIds w ∨ id ∈ w.tick.rows.map (·.id) := by
      rw [hids] at hid
      rw [hrows, List.map_cons]
      rcases hid with hid | hid
      · rcases List.mem_append.1 hid with hid | hid
        · exact .inl hid
        · exact .inr (List.mem_singleton.1 hid ▸ List.mem_cons_self)
      · exact .inr (List.mem_cons_of_mem _ (hrest.subset hid))
    have htaken := h.taken id hbefore
    rw [dispatchNext_cons hrows]
    exact taken_extends (processRow_extends _ _ _ _ _) htaken

/-- **No candidate is dispatched twice**, in any run of the bridge: at most one order and one position come
from a candidate, and nothing that failed or was stopped is tried again. -/
theorem dispatched_once (positions : PositionTable) (setups : List SetupRow) (ops : List BridgeOp) :
    AllStates bridgeStep (fun w => (dispatchedIds w).Nodup) (.start positions setups) ops := by
  apply AllStates.imp (P := OnceOnly) fun w h => h.once
  apply allStates_of_step
  · intro w o h
    cases o with
    | enqueue id c now =>
      exact ⟨h.once, h.apart, fun j hj => taken_extends CandidateTable.extends_insert (h.taken j hj)⟩
    | claim c => exact h.claim c
    | closePosition id reason now => exact ⟨h.once, h.apart, h.taken⟩
    | dispatch i =>
      cases hrows : w.tick.rows with
      | nil =>
        rw [dispatch_done hrows]
        exact h
      | cons row rows => exact h.dispatch hrows
  · exact ⟨List.nodup_nil, by simp [BridgeWorker.start], by simp [BridgeWorker.start, dispatchedIds]⟩

/-! ## Accepted orders and their positions -/

/-- An order that the broker accepted has a position that was inserted for it, and its setup is not closed
as "never opened". -/
def OrdersTracked (w : BridgeWorker) : Prop :=
  ∀ r ∈ w.bridge.reports, r.mode = "live" →
    (r.stamped = true → ¬ r.acked = true) ∧
    (r.acked = true → ∃ p ∈ w.bridge.positions, r.position = some p.id ∧ p.setupId = some r.setupId ∧
      p.mode = .live ∧ p.metadata.selectedCandidateId = r.candidateId)

instance {w : BridgeWorker} : Decidable (OrdersTracked w) :=
  inferInstanceAs (Decidable (∀ r ∈ w.bridge.reports, r.mode = "live" → _ ∧ _))

/-- If the order of a live candidate is accepted, both inserts after it succeed. -/
def OrderGood : BridgeWorker → BridgeOp → Prop :=
  NextGood fun i row w => row.mode = "live" → w.tick.liveEnabled → BrokerAcks i row w.bridge.positions →
    i.insertOrder.isOk ∧ i.insertPosition.isOk

/-- The orders and positions of a later state. -/
theorem OrdersTracked.mono {w' : BridgeWorker} (h : OrdersTracked w)
    (hreports : w'.bridge.reports = w.bridge.reports)
    (hpositions : ∀ p ∈ w.bridge.positions, ∃ p' ∈ w'.bridge.positions,
      p'.toInsertLivePosition = p.toInsertLivePosition ∧ p'.id = p.id) : OrdersTracked w' := by
  intro r hr hmode
  rw [hreports] at hr
  obtain ⟨hstamp, htracked⟩ := h r hr hmode
  refine ⟨hstamp, fun hack => ?_⟩
  obtain ⟨p, hp, hid, hsetup, hlive, hcandidate⟩ := htracked hack
  obtain ⟨p', hp', heq, hid'⟩ := hpositions p hp
  exact ⟨p', hp', hid'.symm ▸ hid, heq ▸ hsetup, heq ▸ hlive, heq ▸ hcandidate⟩

theorem claim_frame {c : ClaimInput} :
    (bridgeStep w (.claim c)).bridge.reports = w.bridge.reports ∧
    (bridgeStep w (.claim c)).bridge.positions = w.bridge.positions := by
  cases hok : c.claimOk with
  | false => simp [claim_failed hok]
  | true => simp [claim_succeeded hok]

theorem Booked.subset {d : Dispatched} {p : LivePosition} (h : Booked i row positions d) (hp : p ∈ positions) :
    p ∈ d.bridge.positions := by
  cases h with
  | none hpos hsame => exact hsame ▸ hp
  | inserted hpos hinsert => exact hinsert ▸ PositionTable.mem_insertLive.2 (.inl hp)

/-- A dispatch that says it has inserted a position has. -/
theorem Booked.tracked {d : Dispatched} (h : Booked i row positions d) (hlive : row.mode = "live")
    (hsome : d.position.isSome) : ∃ p ∈ d.bridge.positions, d.position = some p.id ∧
      p.setupId = some row.setupId ∧ p.mode = .live ∧ p.metadata.selectedCandidateId = row.id := by
  cases h with
  | none hpos hsame => simp [hpos] at hsome
  | inserted hpos hinsert hsetup hcandidate hmode =>
    rw [hinsert]
    exact ⟨_, PositionTable.mem_insertLive.2 (.inr rfl), hpos, hsetup, hmode hlive, hcandidate⟩

variable (i dryEnabled liveEnabled b) in
/-- The report of a live row, with both switches of the claim. -/
theorem dispatch_live_spec (hlive : row.mode = "live") :
    ((dispatch i row dryEnabled liveEnabled b).acked = true ↔
      liveEnabled ∧ BrokerAcks i row b.positions) ∧
    ((dispatch i row dryEnabled liveEnabled b).result.isOk ↔
      (liveEnabled ∧ BrokerAcks i row b.positions) ∧ i.insertOrder.isOk) ∧
    ((dispatch i row dryEnabled liveEnabled b).position.isSome ↔
      ((liveEnabled ∧ BrokerAcks i row b.positions) ∧ i.insertOrder.isOk) ∧ i.insertPosition.isOk) := by
  rw [dispatch_live hlive]
  cases liveEnabled with
  | false => simp [Except.isOk, Except.toBool]
  | true => simpa using dispatchLive_spec i row b

/-- What the report of one row has to say, told by what its dispatch meets. -/
theorem OrdersTracked.dispatch_iff (h : OrdersTracked w) {rows : List SelectedCandidateRow}
    (hrows : w.tick.rows = row :: rows) : OrdersTracked (dispatchNext i w) ↔
      (row.mode = "live" → w.tick.liveEnabled → BrokerAcks i row w.bridge.positions →
        i.insertOrder.isOk ∧ i.insertPosition.isOk) := by
  have hbooked := dispatch_booked i row w.tick.dryEnabled w.tick.liveEnabled w.bridge
  obtain ⟨stamped, hreports, hstamped, -⟩ := processRow_reports i row w.tick.dryEnabled
    w.tick.liveEnabled w.bridge
  rw [dispatchNext_cons hrows]
  constructor
  · intro htracked hlive henabled hacks
    obtain ⟨hacked, -, hposition⟩ := dispatch_live_spec i w.tick.dryEnabled
      w.tick.liveEnabled w.bridge hlive
    obtain ⟨-, hpos⟩ := htracked _ (hreports ▸ List.mem_append_right _ (List.mem_singleton_self _)) hlive
    obtain ⟨p, -, hid, -⟩ := hpos (hacked.2 ⟨henabled, hacks⟩)
    have hsome := hposition.1 (Option.isSome_iff_exists.2 ⟨p.id, hid⟩)
    exact ⟨hsome.1.2, hsome.2⟩
  · intro hgood r hr hmode
    simp only [hreports] at hr ⊢
    rw [processRow_positions]
    rcases List.mem_append.1 hr with hr | hr
    · obtain ⟨hstamp, htracked⟩ := h r hr hmode
      refine ⟨hstamp, fun hack => ?_⟩
      obtain ⟨p, hp, hfacts⟩ := htracked hack
      exact ⟨p, hbooked.subset hp, hfacts⟩
    · obtain rfl := List.mem_singleton.1 hr
      obtain ⟨hacked, hok, hposition⟩ := dispatch_live_spec i w.tick.dryEnabled
        w.tick.liveEnabled w.bridge hmode
      refine ⟨fun hst hack => ?_, fun hack => ?_⟩
      · -- an accepted order whose `exchange_orders` row is written is not an error
        obtain ⟨henabled, hacks⟩ := hacked.1 hack
        exact (hstamped hst).1 (hok.2 ⟨⟨henabled, hacks⟩, (hgood hmode henabled hacks).1⟩)
      · obtain ⟨henabled, hacks⟩ := hacked.1 hack
        obtain ⟨horder, hinsert⟩ := hgood hmode henabled hacks
        exact hbooked.tracked hmode (hposition.2 ⟨⟨⟨henabled, hacks⟩, horder⟩, hinsert⟩)

/-- **When every accepted order is tracked.** In every run of the bridge: no setup with an accepted order is
closed as "never opened" and every accepted order has its position, in every state, exactly when both inserts
that come after the broker's answer succeed whenever the broker accepts. -/
theorem ordersTracked_iff (positions : PositionTable) (setups : List SetupRow) (ops : List BridgeOp) :
    AllStates bridgeStep OrdersTracked (.start positions setups) ops ↔
      AllSteps bridgeStep OrderGood (.start positions setups) ops := by
  apply allStates_iff_nextGood (J := OrdersTracked)
  · intro w h
    exact h
  · intro w id c now h
    exact h.mono rfl fun p hp => ⟨p, hp, rfl, rfl⟩
  · intro w c h
    apply h.mono claim_frame.1
    intro p hp
    rw [claim_frame.2]
    exact ⟨p, hp, rfl, rfl⟩
  · intro w id reason now h
    exact h.mono rfl fun p hp => PositionTable.mem_closeLive hp
  · intro w i row rows h hrows hgood
    exact (h.dispatch_iff hrows).2 hgood
  · intro w i row rows h hrows hbad
    exact mt (h.dispatch_iff hrows).1 hbad
  · intro r hr
    simp [BridgeWorker.start] at hr

/-- The broker has accepted the order, the `exchange_orders` insert fails, and the setup is closed as "never
opened" with an order at the exchange and no position. -/
theorem accepted_is_never_opened : ¬ AllStates bridgeStep OrdersTracked
    (.start [] [{ longFrom100Row with id := 7, state := .armed }])
    [.enqueue 1 (longTo110 "live") 0, .claim claimAll,
      .dispatch { dispatchAt 100 with insertOrder := .error "connection closed" }] := by
  decide +kernel

end Qtss.Worker
