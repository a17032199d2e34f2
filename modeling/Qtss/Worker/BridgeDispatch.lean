import Qtss.Lib.Fallible
import Qtss.Worker.ExecutionBridge
/-
# What one dispatch of the execution bridge does

`BrokerAcks` is what it takes for the order of a live candidate to be accepted (`placeLive_isOk`).
`dispatchDry_spec` and `dispatchLive_spec` say how a dispatch ends, `Booked` what it adds to the positions,
and the `processRow_…` lemmas what becomes of the candidate's row, its setup and the report. What the bridge does
over a run is derived from these alone.
-/

namespace Qtss.Worker
open Storage Keyed Fallible

variable {i : DispatchInput} {row : SelectedCandidateRow} {dryEnabled liveEnabled : Bool} {b : Bridge}
  {live : InsertLivePosition} {positions : PositionTable}

/-! ## The broker -/

/-- The order reaches the broker, and the broker accepts it. -/
structure BrokerAcks (i : DispatchInput) (row : SelectedCandidateRow) (positions : PositionTable) :
    Prop where
  resolved : Resolved i.entry.cfg .live
  unskipped : gateStops i.entry positions row .live = none
  credentials : i.credentials = .ok true
  client : i.client = .ok ()
  segment : entrySegment i.entry.cfg row = "spot" ∨ entrySegment i.entry.cfg row = "futures"
  venue : i.venue.isOk

theorem buildOrderIntent_eq_ok {intent : V1.OrderIntent} : buildOrderIntent live = .ok intent ↔
    ∃ segment side, domainSegment live.segment = .ok segment ∧ orderSide live.side = .ok side ∧
      intent = ⟨⟨.binance, segment, live.symbol⟩, side, live.qtyFilled, .market, false⟩ := by
  unfold buildOrderIntent
  constructor
  · intro h
    obtain ⟨segment, hsegment, h⟩ := bind_eq_ok.1 h
    obtain ⟨side, hside, h⟩ := bind_eq_ok.1 h
    exact ⟨segment, side, hsegment, hside, (Except.ok.inj h).symm⟩
  · rintro ⟨segment, side, hsegment, hside, rfl⟩
    rw [hsegment, hside]
    rfl

/-- The venue is asked for spot and futures orders only. -/
theorem place_isOk (hside : live.side = "BUY" ∨ live.side = "SELL") :
    (∃ intent, buildOrderIntent live = .ok intent ∧ (placeWithVenueResponse intent i.venue).isOk) ↔
      (live.segment = "spot" ∨ live.segment = "futures") ∧ i.venue.isOk := by
  obtain ⟨side, hs⟩ : ∃ side, orderSide live.side = .ok side := by
    rcases hside with h | h <;> rw [h] <;> exact ⟨_, rfl⟩
  have hplace : ∀ segment, (placeWithVenueResponse
      ⟨⟨.binance, segment, live.symbol⟩, side, live.qtyFilled, .market, false⟩ i.venue).isOk ↔
        (segment = .spot ∨ segment = .futures) ∧ i.venue.isOk := by
    intro segment
    cases segment <;> cases i.venue <;>
      simp [placeWithVenueResponse, Except.mapError, Except.isOk, Except.toBool]
  have hsegment : (∃ segment, domainSegment live.segment = .ok segment ∧
      (segment = .spot ∨ segment = .futures)) ↔ live.segment = "spot" ∨ live.segment = "futures" := by
    generalize live.segment = name
    unfold domainSegment
    split <;> simp_all
  rw [← hsegment]
  constructor
  · rintro ⟨intent, hintent, hok⟩
    obtain ⟨segment, side', hseg, hside', rfl⟩ := buildOrderIntent_eq_ok.1 hintent
    cases hs.symm.trans hside'
    obtain ⟨hkind, hvenue⟩ := (hplace segment).1 hok
    exact ⟨⟨segment, hseg, hkind⟩, hvenue⟩
  · rintro ⟨⟨segment, hseg, hkind⟩, hvenue⟩
    exact ⟨_, buildOrderIntent_eq_ok.2 ⟨segment, side, hseg, hs, rfl⟩, (hplace segment).2 ⟨hkind, hvenue⟩⟩

/-- What `dispatch_live` has gone through when the broker has answered. -/
theorem placeLive_eq_ok {venue : VenueResponse} : placeLive i row positions = .ok (live, venue) ↔
    buildLivePositionForMode i.entry positions row .live = some live ∧ i.credentials = .ok true ∧
      i.client = .ok () ∧
      ∃ intent, buildOrderIntent live = .ok intent ∧ placeWithVenueResponse intent i.venue = .ok venue := by
  unfold placeLive
  constructor
  · intro h
    obtain ⟨p, hp, h⟩ := bind_eq_ok.1 h
    obtain ⟨found, hfound, h⟩ := bind_eq_ok.1 h
    cases found with
    | false => exact absurd h nofun
    | true =>
      obtain ⟨_, hclient, h⟩ := bind_eq_ok.1 h
      obtain ⟨intent, hintent, h⟩ := bind_eq_ok.1 h
      obtain ⟨v, hv, h⟩ := bind_eq_ok.1 h
      cases h
      refine ⟨?_, hfound, hclient, intent, hintent, hv⟩
      cases hbuild : buildLivePositionForMode i.entry positions row .live with
      | none => simp [hbuild] at hp
      | some q => simpa [hbuild] using hp
  · rintro ⟨hbuild, hcredentials, hclient, intent, hintent, hvenue⟩
    rw [hbuild, hcredentials, hclient]
    exact bind_eq_ok.2 ⟨live, rfl, bind_eq_ok.2 ⟨true, rfl, bind_eq_ok.2 ⟨(), rfl,
      bind_eq_ok.2 ⟨intent, hintent, bind_eq_ok.2 ⟨venue, hvenue, rfl⟩⟩⟩⟩⟩

variable (i row positions) in
/-- **What it takes** for an order to be accepted. -/
theorem placeLive_isOk : (placeLive i row positions).isOk ↔ BrokerAcks i row positions := by
  have hbuild := build_isSome_iff i.entry positions row .live
  rw [isOk_iff]
  constructor
  · rintro ⟨⟨live, venue⟩, h⟩
    obtain ⟨hlive, hcredentials, hclient, intent, hintent, hvenue⟩ := placeLive_eq_ok.1 h
    rw [hlive] at hbuild
    obtain ⟨hresolved, hgate⟩ := hbuild.1 rfl
    obtain ⟨orgId, userId, rfl⟩ := build_eq_some hlive
    have hsent := (place_isOk (liveSide_cases row.direction)).1 ⟨intent, hintent, isOk_iff.2 ⟨venue, hvenue⟩⟩
    exact ⟨hresolved, hgate, hcredentials, hclient, hsent.1, hsent.2⟩
  · intro hacks
    obtain ⟨live, hlive⟩ := Option.isSome_iff_exists.1 (hbuild.2 ⟨hacks.resolved, hacks.unskipped⟩)
    obtain ⟨orgId, userId, rfl⟩ := build_eq_some hlive
    have hsegment : (positionOf i.entry.cfg orgId userId row .live).segment = "spot" ∨
        (positionOf i.entry.cfg orgId userId row .live).segment = "futures" := hacks.segment
    obtain ⟨intent, hintent, hok⟩ := (place_isOk (liveSide_cases row.direction)).2 ⟨hsegment, hacks.venue⟩
    obtain ⟨venue, hvenue⟩ := isOk_iff.1 hok
    exact ⟨_, placeLive_eq_ok.2 ⟨hlive, hacks.credentials, hacks.client, intent, hintent, hvenue⟩⟩

/-! ## What a dispatch does -/

/-- A dispatch writes neither the queue nor the setups, and reports nothing itself. -/
structure SameQueue (b b' : Bridge) : Prop where
  candidates : b'.candidates = b.candidates
  setups : b'.setups = b.setups
  reports : b'.reports = b.reports

theorem SameQueue.refl (b : Bridge) : SameQueue b b := ⟨rfl, rfl, rfl⟩

/-- The positions after a dispatch: as before, or one more, of the row's setup. -/
inductive Booked (i : DispatchInput) (row : SelectedCandidateRow) (positions : PositionTable) :
    Dispatched → Prop where
  | none {d : Dispatched} (hpos : d.position = none) (hsame : d.bridge.positions = positions) :
    Booked i row positions d
  | inserted {d : Dispatched} {live : InsertLivePosition} {id : Uuid} (hpos : d.position = some id)
    (hinsert : d.bridge.positions = positions.insertLive live id i.now)
    (hsetup : live.setupId = some row.setupId) (hcandidate : live.metadata.selectedCandidateId = row.id)
    (hmode : row.mode = "live" → live.mode = .live) : Booked i row positions d

theorem persistPosition_sameQueue : SameQueue b (persistPosition i live b).1 := by
  unfold persistPosition
  split
  · exact ⟨rfl, rfl, rfl⟩
  · exact .refl b

theorem persistPosition_isSome : (persistPosition i live b).2.isSome ↔ i.insertPosition.isOk := by
  unfold persistPosition
  cases i.insertPosition <;> simp [Except.isOk, Except.toBool]

theorem persistPosition_booked {result : Except String Unit} {acked : Bool}
    (hsetup : live.setupId = some row.setupId) (hcandidate : live.metadata.selectedCandidateId = row.id)
    (hmode : row.mode = "live" → live.mode = .live) :
    Booked i row b.positions ⟨(persistPosition i live b).1, result, acked, (persistPosition i live b).2⟩ := by
  cases h : i.insertPosition with
  | ok id =>
    have hpos : (persistPosition i live b).2 = some id := by simp [persistPosition, h]
    have hinsert : (persistPosition i live b).1.positions = b.positions.insertLive live id i.now := by
      simp [persistPosition, h]
    exact .inserted hpos hinsert hsetup hcandidate hmode
  | error e =>
    refine .none ?_ ?_
    · simp [persistPosition, h]
    · simp [persistPosition, h]

variable (i row b) in
/-- The dry dispatch is `Ok`, whatever the gates say. -/
theorem dispatchDry_spec : (dispatchDry i row b).result = .ok () ∧ (dispatchDry i row b).acked = false ∧
    ((dispatchDry i row b).position.isSome ↔
      (Resolved i.entry.cfg .dry ∧ gateStops i.entry b.positions row .dry = none)
        ∧ i.insertPosition.isOk) := by
  have hbuild := build_isSome_iff i.entry b.positions row .dry
  unfold dispatchDry
  cases h : buildLivePositionForMode i.entry b.positions row .dry with
  | none =>
    rw [h] at hbuild
    refine ⟨rfl, rfl, ?_⟩
    rw [← hbuild]
    simp
  | some live =>
    rw [h] at hbuild
    refine ⟨rfl, rfl, ?_⟩
    rw [← hbuild]
    simpa using persistPosition_isSome

variable (i row b) in
/-- The live dispatch is `Ok` from the `exchange_orders` row on. -/
theorem dispatchLive_spec :
    ((dispatchLive i row b).acked = true ↔ BrokerAcks i row b.positions) ∧
    ((dispatchLive i row b).result.isOk ↔ BrokerAcks i row b.positions ∧ i.insertOrder.isOk) ∧
    ((dispatchLive i row b).position.isSome ↔
      (BrokerAcks i row b.positions ∧ i.insertOrder.isOk) ∧ i.insertPosition.isOk) := by
  have hplace := placeLive_isOk i row b.positions
  rw [← hplace]
  unfold dispatchLive
  cases h : placeLive i row b.positions with
  | error e => simp [Except.isOk, Except.toBool]
  | ok sent =>
    cases horder : i.insertOrder with
    | error e => simp [Except.isOk, Except.toBool]
    | ok _ =>
      refine ⟨by simp [Except.isOk, Except.toBool], by simp [Except.isOk, Except.toBool], ?_⟩
      simpa [Except.isOk, Except.toBool] using persistPosition_isSome

theorem dispatch_dry (h : row.mode = "dry") : dispatch i row dryEnabled liveEnabled b =
    if dryEnabled then dispatchDry i row b
    else ⟨b, .error "dry execution disabled via config", false, none⟩ := by
  simp [dispatch, h]

theorem dispatch_live (h : row.mode = "live") : dispatch i row dryEnabled liveEnabled b =
    if liveEnabled then dispatchLive i row b
    else ⟨b, .error "live execution disabled via config", false, none⟩ := by
  simp [dispatch, h]

variable (i dryEnabled liveEnabled b) in
theorem dispatch_other (hdry : row.mode ≠ "dry") (hlive : row.mode ≠ "live") :
    ∃ result, dispatch i row dryEnabled liveEnabled b = ⟨b, result, false, none⟩ := by
  unfold dispatch
  split
  · contradiction
  · contradiction
  · exact ⟨_, rfl⟩
  · exact ⟨_, rfl⟩

theorem dispatchDry_sameQueue : SameQueue b (dispatchDry i row b).bridge := by
  unfold dispatchDry
  split
  · exact persistPosition_sameQueue
  · exact .refl b

theorem dispatchLive_sameQueue : SameQueue b (dispatchLive i row b).bridge := by
  unfold dispatchLive
  split
  · exact .refl b
  · split
    · exact .refl b
    · obtain ⟨hc, hs, hr⟩ := persistPosition_sameQueue (i := i)
      exact ⟨hc, hs, hr⟩

variable (i row dryEnabled liveEnabled b) in
theorem dispatch_sameQueue : SameQueue b (dispatch i row dryEnabled liveEnabled b).bridge := by
  by_cases hdry : row.mode = "dry"
  · rw [dispatch_dry hdry]
    split
    · exact dispatchDry_sameQueue
    · exact .refl b
  by_cases hlive : row.mode = "live"
  · rw [dispatch_live hlive]
    split
    · exact dispatchLive_sameQueue
    · exact .refl b
  obtain ⟨result, h⟩ := dispatch_other i dryEnabled liveEnabled b hdry hlive
  rw [h]
  exact .refl b

theorem dispatchDry_booked (hdry : row.mode = "dry") : Booked i row b.positions (dispatchDry i row b) := by
  unfold dispatchDry
  split
  · rename_i live h
    obtain ⟨orgId, userId, rfl⟩ := build_eq_some h
    exact persistPosition_booked rfl rfl (by simp [hdry])
  · exact .none rfl rfl

theorem dispatchLive_booked : Booked i row b.positions (dispatchLive i row b) := by
  unfold dispatchLive
  cases h : placeLive i row b.positions with
  | error e => exact .none rfl rfl
  | ok sent =>
    obtain ⟨live, venue⟩ := sent
    obtain ⟨orgId, userId, rfl⟩ := build_eq_some (placeLive_eq_ok.1 h).1
    cases horder : i.insertOrder with
    | error e => exact .none rfl rfl
    | ok _ =>
      exact persistPosition_booked (b := { b with orders := b.orders ++ [_] }) rfl rfl fun _ => rfl

variable (i row dryEnabled liveEnabled b) in
theorem dispatch_booked : Booked i row b.positions (dispatch i row dryEnabled liveEnabled b) := by
  by_cases hdry : row.mode = "dry"
  · rw [dispatch_dry hdry]
    split
    · exact dispatchDry_booked hdry
    · exact .none rfl rfl
  by_cases hlive : row.mode = "live"
  · rw [dispatch_live hlive]
    split
    · exact dispatchLive_booked
    · exact .none rfl rfl
  obtain ⟨result, h⟩ := dispatch_other i dryEnabled liveEnabled b hdry hlive
  rw [h]
  exact .none rfl rfl

/-! ## What becomes of a row -/

theorem processRow_positions : (processRow i row dryEnabled liveEnabled b).1.positions =
    (dispatch i row dryEnabled liveEnabled b).bridge.positions := by
  unfold processRow
  simp only
  split
  · rfl
  · split <;> rfl

variable (i row dryEnabled liveEnabled b) in
/-- The row is marked as placed, marked as errored, or left as claimed by a failed write. -/
theorem processRow_candidates :
    ((dispatch i row dryEnabled liveEnabled b).result.isOk ∧ i.markPlacedOk ∧
      (processRow i row dryEnabled liveEnabled b).1.candidates = b.candidates.markPlaced row.id i.now) ∨
    (∃ msg, (dispatch i row dryEnabled liveEnabled b).result = .error msg ∧
      (processRow i row dryEnabled liveEnabled b).1.candidates = b.candidates.markErrored row.id msg) ∨
    (¬ ((dispatch i row dryEnabled liveEnabled b).result.isOk ∧ i.markPlacedOk) ∧
      (processRow i row dryEnabled liveEnabled b).1.candidates = b.candidates) := by
  have hqueue := (dispatch_sameQueue i row dryEnabled liveEnabled b).candidates
  unfold processRow
  simp only
  cases h : (dispatch i row dryEnabled liveEnabled b).result with
  | ok _ =>
    cases hmark : i.markPlacedOk with
    | true => exact .inl ⟨rfl, rfl, by simp [hqueue]⟩
    | false => exact .inr (.inr ⟨by simp, by simp [hqueue]⟩)
  | error msg =>
    cases hmark : i.markErroredOk with
    | true => exact .inr (.inl ⟨msg, rfl, by simp [hqueue]⟩)
    | false => exact .inr (.inr ⟨by simp [Except.isOk, Except.toBool], by simp [hqueue]⟩)

theorem markSetupRejected_eq_self {setups : List SetupRow} {setupId : Uuid} {reason : String}
    {now : DateTime} (h : ¬ setups.any fun s => s.id == setupId && s.closedAt.isNone) :
    markSetupRejected setupId reason now setups = setups := by
  unfold markSetupRejected
  conv_rhs => rw [← List.map_id setups]
  apply List.map_congr_left
  intro s hs
  simp only [List.any_eq_true, not_exists, not_and, Bool.and_eq_true, beq_iff_eq] at h
  split
  · rename_i hid
    have hclosed := h s hs hid
    simp only [Option.isNone_iff_eq_none] at hclosed
    simp [SetupRow.markRejected, Option.isSome_iff_ne_none, hclosed]
  · rfl

variable (i row dryEnabled liveEnabled b) in
/-- One report for a row. The stamp is in it when a dispatch failed and the setup has been closed as
"never opened". -/
theorem processRow_reports : ∃ stamped,
    (processRow i row dryEnabled liveEnabled b).1.reports = b.reports ++
      [⟨row.id, row.setupId, row.mode, skippedBy i row dryEnabled liveEnabled b,
        (dispatch i row dryEnabled liveEnabled b).acked,
        (dispatch i row dryEnabled liveEnabled b).position, stamped⟩] ∧
    (stamped = true → ¬ (dispatch i row dryEnabled liveEnabled b).result.isOk ∧
      ∃ s ∈ (processRow i row dryEnabled liveEnabled b).1.setups,
        s.id = row.setupId ∧ s.state = .rejected ∧ s.closeReason = some "cancelled") ∧
    (stamped = false → (processRow i row dryEnabled liveEnabled b).1.setups = b.setups) := by
  obtain ⟨-, hsetups, hreports⟩ := dispatch_sameQueue i row dryEnabled liveEnabled b
  unfold processRow
  simp only
  cases h : (dispatch i row dryEnabled liveEnabled b).result with
  | ok _ => exact ⟨false, by rw [hreports], nofun, fun _ => hsetups⟩
  | error msg =>
    cases hmark : i.markErroredOk with
    | false => exact ⟨false, by rw [← hreports]; rfl, nofun, fun _ => hsetups⟩
    | true =>
      refine ⟨_, by rw [← hreports]; rfl, fun hstamped => ⟨nofun, ?_⟩, fun hstamped => ?_⟩
      · obtain ⟨hstamps, hopen⟩ := Bool.and_eq_true_iff.1 hstamped
        obtain ⟨s, hs, hid⟩ := List.any_eq_true.1 hopen
        simp only [Bool.and_eq_true, beq_iff_eq, Option.isNone_iff_eq_none] at hid
        simp only [↓reduceIte, hstamps, markSetupRejected]
        refine ⟨_, List.mem_map.2 ⟨s, hs, rfl⟩, ?_⟩
        simp [SetupRow.markRejected, hid]
      · simp only [↓reduceIte]
        split
        · rename_i hstamps
          rw [hsetups]
          apply markSetupRejected_eq_self
          rw [hsetups, hstamps, Bool.true_and] at hstamped
          simp [hstamped]
        · exact hsetups

variable (i row dryEnabled liveEnabled b) in
theorem processRow_extends :
    b.candidates.Extends (processRow i row dryEnabled liveEnabled b).1.candidates := by
  rcases processRow_candidates i row dryEnabled liveEnabled b with ⟨-, -, h⟩ | ⟨msg, -, h⟩ | ⟨-, h⟩
  · rw [h]
    exact CandidateTable.extends_markPlaced
  · rw [h]
    exact CandidateTable.extends_markErrored
  · rw [h]
    exact .refl _

end Qtss.Worker
