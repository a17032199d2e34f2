import Mathlib.Data.List.Nodup
import Qtss.Worker.Allocator
/-
# One slot, one setup

A candidate collects the holders of lower timeframe of all its modes first, arms its modes one by one, and retires
all it has collected after each of them. `Working` is what carries the candidate's locals across the gates while
other loops move setups on; `allocator_sound` is what every run keeps.
-/

namespace Qtss.Worker.Allocator
open Runs

variable {setups setups' : List Setup} {w : Work} {r r' : Setup} {v : Viability} {mode : String}

/-! ## What becomes of a row -/

/-- The row later on: never live again once it was not. -/
structure Setup.Aged (r r' : Setup) : Prop where
  id : r'.id = r.id
  slot : r'.slot = r.slot
  timeframe : r'.timeframe = r.timeframe
  openedAs : r'.openedAs = r.openedAs
  live : r'.live → r.live

theorem Setup.Aged.refl (r : Setup) : r.Aged r := ⟨rfl, rfl, rfl, rfl, fun h => h⟩

theorem Setup.Aged.barMinutes (h : r.Aged r') : r'.barMinutes = r.barMinutes := by
  rw [Setup.barMinutes, Setup.barMinutes, h.timeframe]

theorem updateLive_aged {f : Setup → Setup} (id : Uuid) (hf : ∀ r : Setup, r.live → r.Aged (f r)) (setups : List Setup) :
    List.Forall₂ Setup.Aged setups (updateLive id f setups) := by
  rw [updateLive, List.forall₂_map_right_iff, List.forall₂_same]
  intro r _
  split
  next hhit => exact hf r hhit.2
  next => exact .refl r

theorem exists_older (h : List.Forall₂ Setup.Aged setups setups') : ∀ r' ∈ setups', ∃ r ∈ setups, r.Aged r' := by
  induction h with
  | nil => simp
  | cons hr _ ih =>
    intro r' hr'
    rcases List.mem_cons.1 hr' with rfl | hr'
    · exact ⟨_, List.mem_cons_self, hr⟩
    · obtain ⟨r, hmem, hage⟩ := ih r' hr'
      exact ⟨r, List.mem_cons_of_mem _ hmem, hage⟩

theorem exists_younger (h : List.Forall₂ Setup.Aged setups setups') : ∀ r ∈ setups, ∃ r' ∈ setups', r.Aged r' := by
  induction h with
  | nil => simp
  | cons hr _ ih =>
    intro r hmem
    rcases List.mem_cons.1 hmem with rfl | hmem
    · exact ⟨_, List.mem_cons_self, hr⟩
    · obtain ⟨r', hr', hage⟩ := ih r hmem
      exact ⟨r', List.mem_cons_of_mem _ hr', hage⟩

theorem map_id_aged (h : List.Forall₂ Setup.Aged setups setups') : setups'.map (·.id) = setups.map (·.id) := by
  induction h with
  | nil => rfl
  | cons hr _ ih => rw [List.map_cons, List.map_cons, hr.id, ih]

/-! ## The candidate at hand -/

theorem Candidate.slot_inj {c : Candidate} {m m' : String} (h : c.slot m = c.slot m') : m = m' := by
  simpa [Candidate.slot] using h

/-- The candidate has gone in as armed for this mode. -/
def Work.Armed (setups : List Setup) (w : Work) (mode : String) : Prop :=
  ∃ r ∈ setups, r.openedAs = .armed ∧ r.slot = w.cand.slot mode ∧ r.timeframe = w.cand.timeframe

/-- Whoever holds a slot that is to be armed has been collected. -/
def Work.Covered (setups : List Setup) (w : Work) : Prop :=
  ∀ mode ∈ w.modesToArm, ∀ r ∈ setups, r.live → r.slot = w.cand.slot mode → r.id ∈ w.superseded

/-- The collected setups are of lower timeframe, each in a slot that is to be armed or has been. -/
structure Work.Lower (setups : List Setup) (w : Work) : Prop where
  known : ∀ id ∈ w.superseded, id ∈ setups.map (·.id)
  below : ∀ r ∈ setups, r.id ∈ w.superseded → ∃ mode, r.slot = w.cand.slot mode ∧ r.barMinutes < w.cand.barMinutes
    ∧ (mode ∈ w.modesToArm ∨ w.Armed setups mode)

theorem Work.Armed.aged (h : List.Forall₂ Setup.Aged setups setups') (ha : w.Armed setups mode) :
    w.Armed setups' mode := by
  obtain ⟨r, hr, hopened, hslot, htf⟩ := ha
  obtain ⟨r', hr', hage⟩ := exists_younger h r hr
  exact ⟨r', hr', hage.openedAs.trans hopened, hage.slot.trans hslot, hage.timeframe.trans htf⟩

theorem Work.Covered.aged (h : List.Forall₂ Setup.Aged setups setups') (hc : w.Covered setups) :
    w.Covered setups' := by
  intro mode hmode r' hr' hlive hslot
  obtain ⟨r, hr, hage⟩ := exists_older h r' hr'
  rw [hage.id]
  exact hc mode hmode r hr (hage.live hlive) (hage.slot ▸ hslot)

theorem Work.Lower.aged (h : List.Forall₂ Setup.Aged setups setups') (hl : w.Lower setups) : w.Lower setups' where
  known id hid := map_id_aged h ▸ hl.known id hid
  below r' hr' hid := by
    obtain ⟨r, hr, hage⟩ := exists_older h r' hr'
    obtain ⟨mode, hslot, hmin, hmode⟩ := hl.below r hr (hage.id ▸ hid)
    exact ⟨mode, hage.slot.trans hslot, hage.barMinutes ▸ hmin, hmode.imp_right fun ha => ha.aged h⟩

/-! ## The invariant -/

/-- What is retired next: the holders that a new setup has just replaced. -/
def Pc.pending : Pc → List Uuid
  | .retiring _ ids => ids
  | _ => []

def Pc.Holds (setups : List Setup) : Pc → Prop
  | .sleeping => True
  | .loopHead _ => True
  | .dedup w modes => (w.modesToArm ++ modes).Nodup ∧ w.Covered setups ∧ w.Lower setups
  | .gates w => w.modesToArm.Nodup ∧ w.Covered setups ∧ w.Lower setups
  | .approval w => w.modesToArm.Nodup ∧ w.Covered setups ∧ w.Lower setups
  | .arming w v => w.modesToArm.Nodup ∧ w.Covered setups ∧ (v = .viable → w.Lower setups)
  | .retiring w ids => w.modesToArm.Nodup ∧ w.Covered setups ∧ w.Lower setups ∧ ids ⊆ w.superseded
      ∧ ∀ r ∈ setups, r.live → r.id ∈ w.superseded → r.id ∈ ids

/-- At most one armed or active setup holds a slot, apart from those that are retired next. -/
def State.OneSetupPerSlot (s : State) : Prop :=
  ∀ r ∈ s.setups, ∀ r' ∈ s.setups, r.live → r'.live → r.slot = r'.slot →
    r.id = r'.id ∨ r.id ∈ s.pc.pending ∨ r'.id ∈ s.pc.pending

structure State.Inv (s : State) : Prop where
  ids : (s.setups.map (·.id)).Nodup
  oneSetup : s.OneSetupPerSlot
  holds : s.pc.Holds s.setups

theorem Pc.Holds.aged {pc : Pc} (h : List.Forall₂ Setup.Aged setups setups') (hpc : pc.Holds setups) :
    pc.Holds setups' := by
  cases pc with
  | sleeping => trivial
  | loopHead t => trivial
  | dedup w modes => exact ⟨hpc.1, hpc.2.1.aged h, hpc.2.2.aged h⟩
  | gates w => exact ⟨hpc.1, hpc.2.1.aged h, hpc.2.2.aged h⟩
  | approval w => exact ⟨hpc.1, hpc.2.1.aged h, hpc.2.2.aged h⟩
  | arming w v => exact ⟨hpc.1, hpc.2.1.aged h, fun hv => (hpc.2.2 hv).aged h⟩
  | retiring w ids =>
    obtain ⟨hnodup, hcov, hlow, hsub, hleft⟩ := hpc
    refine ⟨hnodup, hcov.aged h, hlow.aged h, hsub, fun r' hr' hlive hid => ?_⟩
    obtain ⟨r, hr, hage⟩ := exists_older h r' hr'
    rw [hage.id] at hid ⊢
    exact hleft r hr (hage.live hlive) hid

namespace State
variable {s : State}

theorem inv_start : start.Inv where
  ids := .nil
  oneSetup := by simp [OneSetupPerSlot, start]
  holds := trivial

theorem Inv.eq_of_id (h : s.Inv) (hr : r ∈ s.setups) (hr' : r' ∈ s.setups) (hid : r.id = r'.id) : r = r' :=
  List.inj_on_of_nodup_map h.ids hr hr' hid

/-- A step that leaves the setups alone, outside the retirements. -/
theorem Inv.goto {pc : Pc} (h : s.Inv) (hpending : s.pc.pending = []) (hpc : pc.Holds s.setups) :
    Inv ⟨s.setups, pc⟩ where
  ids := h.ids
  oneSetup := by
    intro r hr r' hr' hlive hlive' hslot
    have hone := h.oneSetup r hr r' hr' hlive hlive' hslot
    rw [hpending] at hone
    exact .inl (by simpa using hone)
  holds := hpc

/-- Other loops only empty slots. -/
theorem Inv.aged (h : s.Inv) (hage : List.Forall₂ Setup.Aged s.setups setups') : Inv ⟨setups', s.pc⟩ where
  ids := map_id_aged hage ▸ h.ids
  oneSetup := by
    intro r hr r' hr' hlive hlive' hslot
    obtain ⟨q, hq, hrq⟩ := exists_older hage r hr
    obtain ⟨q', hq', hrq'⟩ := exists_older hage r' hr'
    rw [hrq.id, hrq'.id]
    exact h.oneSetup q hq q' hq' (hrq.live hlive) (hrq'.live hlive') (by rw [← hrq.slot, hslot, hrq'.slot])
  holds := h.holds.aged hage

/-! ## One statement -/

theorem mem_existing {slot : Slot} :
    r ∈ setups.filter (fun r => r.live && r.slot = slot) ↔ r ∈ setups ∧ r.live ∧ r.slot = slot := by
  simp

/-- A slot is not kept by one holder and emptied of another: it has only one. -/
theorem Inv.select {modes : List String} (h : Inv ⟨setups, .dedup w (mode :: modes)⟩) :
    Inv ⟨setups, Pc.select setups (.dedup w (mode :: modes))⟩ := by
  obtain ⟨hnodup, hcov, hlow⟩ := h.holds
  refine h.goto rfl ?_
  simp only [Pc.select]
  set existing := setups.filter fun r => r.live && r.slot = w.cand.slot mode with hexisting
  set lower := (existing.filter fun r => r.barMinutes < w.cand.barMinutes).map (·.id) with hlower
  have hmem : ∀ r, r ∈ existing ↔ r ∈ setups ∧ r.live ∧ r.slot = w.cand.slot mode := fun r => mem_existing
  have hmemLower : ∀ r ∈ setups, r.id ∈ lower →
      r.live ∧ r.slot = w.cand.slot mode ∧ r.barMinutes < w.cand.barMinutes := by
    intro r hr hid
    simp only [hlower, List.mem_map, List.mem_filter, hmem, decide_eq_true_eq] at hid
    obtain ⟨q, ⟨⟨hq, hlive, hslot⟩, hmin⟩, hqr⟩ := hid
    rw [h.eq_of_id hr hq hqr.symm]
    exact ⟨hlive, hslot, hmin⟩
  have hknown : ∀ id ∈ w.superseded ++ lower, id ∈ setups.map (·.id) := by
    intro id hid
    rcases List.mem_append.1 hid with hid | hid
    · exact hlow.known id hid
    · simp only [hlower, List.mem_map, List.mem_filter, hmem] at hid
      obtain ⟨q, ⟨⟨hq, _⟩, _⟩, hqr⟩ := hid
      exact List.mem_map.2 ⟨q, hq, hqr⟩
  by_cases hkeep : existing.any (fun r => w.cand.barMinutes ≤ r.barMinutes) = true
  · simp only [hkeep, if_true]
    refine ⟨hnodup.sublist (List.Sublist.append_left (List.sublist_cons_self mode modes) _), ?_, hknown, ?_⟩
    · exact fun m hm r hr hlive hslot => List.mem_append_left _ (hcov m hm r hr hlive hslot)
    · intro r hr hid
      rcases List.mem_append.1 hid with hid | hid
      · exact hlow.below r hr hid
      · -- the holder that keeps the slot would be the one to be retired
        obtain ⟨hlive, hslot, hmin⟩ := hmemLower r hr hid
        obtain ⟨q, hq, hqmin⟩ := List.any_eq_true.1 hkeep
        obtain ⟨hq, hqlive, hqslot⟩ := (hmem q).1 hq
        have hone := h.oneSetup r hr q hq hlive hqlive (hslot.trans hqslot.symm)
        simp only [Pc.pending, List.not_mem_nil, or_false] at hone
        rw [h.eq_of_id hr hq hone] at hmin
        exact absurd (of_decide_eq_true hqmin) (by omega)
  · simp only [hkeep, if_false, Bool.false_eq_true]
    refine ⟨by simpa using hnodup, ?_, hknown, ?_⟩
    · intro m hm r hr hlive hslot
      rcases List.mem_append.1 hm with hm | hm
      · exact List.mem_append_left _ (hcov m hm r hr hlive hslot)
      · rw [List.mem_singleton.1 hm] at hslot
        have hr' := (hmem r).2 ⟨hr, hlive, hslot⟩
        have hmin : r.barMinutes < w.cand.barMinutes := by
          by_contra hge
          exact hkeep (List.any_eq_true.2 ⟨r, hr', by simpa using hge⟩)
        exact List.mem_append_right _ (List.mem_map.2 ⟨r, List.mem_filter.2 ⟨hr', by simpa using hmin⟩, rfl⟩)
    · intro r hr hid
      rcases List.mem_append.1 hid with hid | hid
      · obtain ⟨m, hslot, hmin, hm⟩ := hlow.below r hr hid
        exact ⟨m, hslot, hmin, hm.imp_left (List.mem_append_left _)⟩
      · obtain ⟨_, hslot, hmin⟩ := hmemLower r hr hid
        exact ⟨mode, hslot, hmin, .inl (by simp)⟩

theorem Inv.goes {pc pc' : Pc} {op : Op} (h : Inv ⟨setups, pc⟩) (hgoes : Goes setups pc op pc') :
    Inv ⟨setups, pc'⟩ := by
  have hpc := h.holds
  cases hgoes with
  | stays => exact h
  | wakes | ends | kept | skipped | skippedLate | opposed | armedAll => exact h.goto rfl trivial
  | takes t c rest =>
    exact h.goto rfl ⟨by simpa using t.cfg.modesNodup, by simp [Work.Covered], ⟨by simp, by simp⟩⟩
  | selects w mode modes => exact h.select
  | collected w => exact h.goto rfl ⟨by simpa using hpc.1, hpc.2⟩
  | unopposed w => exact h.goto rfl hpc
  | approved w v => exact h.goto rfl ⟨hpc.1, hpc.2.1, fun _ => hpc.2.2⟩
  | retiredAll w => exact h.goto rfl ⟨hpc.1, hpc.2.1, fun _ => ⟨hpc.2.2.1.known, hpc.2.2.1.below⟩⟩

theorem Work.Armed.append (ha : w.Armed setups mode) (n : Setup) : w.Armed (setups ++ [n]) mode := by
  obtain ⟨r, hr, h⟩ := ha
  exact ⟨r, List.mem_append_left _ hr, h⟩

theorem nodup_append_id {n : Setup} (h : (setups.map (·.id)).Nodup) (hfresh : n.id ∉ setups.map (·.id)) :
    ((setups ++ [n]).map (·.id)).Nodup := by
  rw [List.map_append, List.map_singleton]
  simpa using h.concat hfresh

theorem not_live_rejected (w : Work) {v : Viability} (hv : v ≠ .viable) (mode : String) (id : Uuid) :
    ¬ (w.setup v mode id).live := by
  cases v <;> simp_all [Work.setup, Setup.live, Viability.setupState]

/-- The new setup meets only holders that are about to be retired. -/
theorem Inv.armed {id : Uuid} {modes : List String} (h : s.Inv) (hpc : s.pc = .arming w .viable)
    (hmodes : w.modesToArm = mode :: modes) (hfresh : id ∉ s.setups.map (·.id)) :
    Inv ⟨s.setups ++ [w.setup .viable mode id], .retiring { w with modesToArm := modes } w.superseded⟩ := by
  have hholds := h.holds
  rw [hpc] at hholds
  obtain ⟨hnodup, hcov, hlow⟩ := hholds
  rw [hmodes, List.nodup_cons] at hnodup
  have hcov' : ∀ r ∈ s.setups, r.live → r.slot = w.cand.slot mode → r.id ∈ w.superseded :=
    hcov mode (by simp [hmodes])
  refine ⟨nodup_append_id h.ids hfresh, ?_, hnodup.2, ?_, ⟨?_, ?_⟩, fun _ hid => hid, fun _ _ _ hid => hid⟩
  · intro r hr r' hr' hlive hlive' hslot
    simp only [List.mem_append, List.mem_singleton] at hr hr'
    rcases hr with hr | rfl <;> rcases hr' with hr' | rfl
    · have hone := h.oneSetup r hr r' hr' hlive hlive' hslot
      simp only [hpc, Pc.pending, List.not_mem_nil, or_false] at hone
      exact .inl hone
    · exact .inr (.inl (hcov' r hr hlive hslot))
    · exact .inr (.inr (hcov' r' hr' hlive' hslot.symm))
    · exact .inl rfl
  · intro m hm r hr hlive hslot
    rcases List.mem_append.1 hr with hr | hr
    · exact hcov m (by simp [hmodes, hm]) r hr hlive hslot
    · rw [List.mem_singleton.1 hr] at hslot
      exact absurd (Candidate.slot_inj hslot ▸ hm) hnodup.1
  · intro i hi
    rw [List.map_append]
    exact List.mem_append_left _ ((hlow rfl).known i hi)
  · intro r hr hid
    rcases List.mem_append.1 hr with hr | hr
    · obtain ⟨m, hslot, hmin, hm⟩ := (hlow rfl).below r hr hid
      refine ⟨m, hslot, hmin, ?_⟩
      rcases hm with hm | hm
      · rcases List.mem_cons.1 (hmodes ▸ hm) with rfl | hm
        · exact .inr ⟨_, List.mem_append_right _ (List.mem_singleton_self _), rfl, rfl, rfl⟩
        · exact .inl hm
      · exact .inr (Work.Armed.append (w := w) hm _)
    · rw [List.mem_singleton.1 hr] at hid
      exact absurd ((hlow rfl).known _ hid) hfresh

theorem Inv.rejected {id : Uuid} {modes : List String} (h : s.Inv) (hpc : s.pc = .arming w v)
    (hmodes : w.modesToArm = mode :: modes) (hv : v ≠ .viable) (hfresh : id ∉ s.setups.map (·.id)) :
    Inv ⟨s.setups ++ [w.setup v mode id], .arming { w with modesToArm := modes } v⟩ := by
  have hholds := h.holds
  rw [hpc] at hholds
  obtain ⟨hnodup, hcov, -⟩ := hholds
  rw [hmodes, List.nodup_cons] at hnodup
  have hold : ∀ r ∈ s.setups ++ [w.setup v mode id], r.live → r ∈ s.setups := by
    intro r hr hlive
    rcases List.mem_append.1 hr with hr | hr
    · exact hr
    · rw [List.mem_singleton.1 hr] at hlive
      exact absurd hlive (not_live_rejected w hv mode id)
  refine ⟨nodup_append_id h.ids hfresh, ?_, hnodup.2, ?_, fun hviable => absurd hviable hv⟩
  · intro r hr r' hr' hlive hlive' hslot
    have hone := h.oneSetup r (hold r hr hlive) r' (hold r' hr' hlive') hlive hlive' hslot
    simp only [hpc, Pc.pending, List.not_mem_nil, or_false] at hone
    exact .inl hone
  · exact fun m hm r hr hlive hslot => hcov m (by simp [hmodes, hm]) r (hold r hr hlive) hlive hslot

theorem Inv.insert (h : s.Inv) (id : Option Uuid) : (s.insert id).Inv := by
  have hinserts := insert_inserts s id
  generalize s.insert id = s' at hinserts ⊢
  cases hinserts with
  | idle => exact h
  | fails _ hpc => exact h.goto (by rw [hpc]; rfl) trivial
  | armed hpc hmodes hfresh => exact h.armed hpc hmodes hfresh
  | rejected hpc hmodes hv hfresh => exact h.rejected hpc hmodes hv hfresh

/-- The row after its retirement. -/
def retired (r : Setup) : Setup := { r with state := .rejected, rejectedReason := some upgradedReason }

theorem not_live_retired (r : Setup) : ¬ (retired r).live := by simp [retired, Setup.live]

theorem retired_aged (r : Setup) : r.Aged (retired r) :=
  ⟨rfl, rfl, rfl, rfl, fun h => absurd h (not_live_retired r)⟩

theorem mem_updateLive {f : Setup → Setup} {id : Uuid} (h : r' ∈ updateLive id f setups) :
    (r' ∈ setups ∧ (r'.live → r'.id ≠ id)) ∨ ∃ r ∈ setups, r.id = id ∧ r.live ∧ r' = f r := by
  obtain ⟨r, hr, rfl⟩ := List.mem_map.1 h
  by_cases hhit : r.id = id ∧ r.live
  · exact .inr ⟨r, hr, hhit.1, hhit.2, if_pos hhit⟩
  · rw [if_neg hhit]
    exact .inl ⟨hr, fun hlive hid => hhit ⟨hid, hlive⟩⟩

theorem Inv.retire (h : s.Inv) : s.retire.Inv := by
  obtain ⟨setups, pc⟩ := s
  cases pc with
  | retiring w ids =>
    cases ids with
    | nil => exact h
    | cons id ids =>
      have hage := updateLive_aged id (fun r _ => retired_aged r) setups
      have hgone : ∀ r ∈ updateLive id retired setups, r.live → r.id ≠ id := by
        intro r hr hlive
        rcases mem_updateLive hr with ⟨-, hne⟩ | ⟨q, -, -, -, rfl⟩
        · exact hne hlive
        · exact absurd hlive (not_live_retired q)
      have hnext := h.aged hage
      obtain ⟨hnodup, hcov, hlow, hsub, hleft⟩ := hnext.holds
      refine ⟨hnext.ids, ?_, hnodup, hcov, hlow, fun i hi => hsub (List.mem_cons_of_mem _ hi), ?_⟩
      · intro r hr r' hr' hlive hlive' hslot
        have hone := hnext.oneSetup r hr r' hr' hlive hlive' hslot
        simp only [Pc.pending, List.mem_cons] at hone ⊢
        exact hone.imp_right
          (Or.imp (fun hid => hid.resolve_left (hgone r hr hlive)) fun hid => hid.resolve_left (hgone r' hr' hlive'))
      · intro r hr hlive hid
        exact (List.mem_cons.1 (hleft r hr hlive hid)).resolve_left (hgone r hr hlive)
  | _ => exact h

theorem moved_aged (r : Setup) (state : SetupState) (hlive : r.live) : r.Aged { r with state := state } :=
  ⟨rfl, rfl, rfl, rfl, fun _ => hlive⟩

theorem inv_step (h : s.Inv) (op : Op) : (s.step op).Inv := by
  rcases step_cases s op with ⟨pc, hgoes, hstep⟩ | ⟨id, rfl⟩ | rfl | ⟨id, state, rfl⟩
  · rw [hstep]
    exact h.goes hgoes
  · exact h.insert id
  · exact h.retire
  · exact h.aged (updateLive_aged id (fun r hlive => moved_aged r state hlive) s.setups)

end State

/-! ## Retired only when replaced -/

/-- A setup of higher timeframe has gone in as armed for the same slot. -/
def Replaced (setups : List Setup) (r : Setup) : Prop :=
  ∃ r' ∈ setups, r'.openedAs = .armed ∧ r'.slot = r.slot ∧ r.barMinutes < r'.barMinutes

instance (setups : List Setup) (r : Setup) : Decidable (Replaced setups r) :=
  inferInstanceAs (Decidable (∃ r' ∈ setups, _))

/-- The candidate that is being armed, mode by mode. -/
def Pc.arms : Pc → Option Work
  | .arming w .viable => some w
  | .retiring w _ => some w
  | _ => none

/-- The slot of `r` is one that the candidate at hand arms next. -/
def Awaits (pc : Pc) (r : Setup) : Prop :=
  ∃ w ∈ pc.arms, r.id ∈ w.superseded ∧ ∃ mode ∈ w.modesToArm, r.slot = w.cand.slot mode

theorem Replaced.append (h : Replaced setups r) (n : Setup) : Replaced (setups ++ [n]) r := by
  obtain ⟨r', hr', h⟩ := h
  exact ⟨r', List.mem_append_left _ hr', h⟩

theorem Replaced.aged (h : List.Forall₂ Setup.Aged setups setups') (hr : r.Aged r') (hrep : Replaced setups r) :
    Replaced setups' r' := by
  obtain ⟨q, hq, hopened, hslot, hmin⟩ := hrep
  obtain ⟨q', hq', hage⟩ := exists_younger h q hq
  exact ⟨q', hq', hage.openedAs.trans hopened, by rw [hage.slot, hslot, hr.slot],
    by rwa [hage.barMinutes, hr.barMinutes]⟩

theorem not_awaits {pc : Pc} (h : pc.arms = none) (r : Setup) : ¬ Awaits pc r := by
  simp [Awaits, h]

namespace State
variable {s : State}

def UpgradesReplaced (s : State) : Prop :=
  ∀ r ∈ s.setups, r.rejectedReason = some upgradedReason → Replaced s.setups r ∨ Awaits s.pc r

/-- No INSERT aborts the tick while a setup of a mode still to be armed has been retired for an earlier mode. -/
def AbortsClean (s : State) (op : Op) : Prop :=
  (s.step op).pc = .sleeping → ∀ r ∈ s.setups, r.rejectedReason = some upgradedReason → ¬ Awaits s.pc r

/-- A step of the program counter keeps what it awaits. -/
theorem UpgradesReplaced.goto {pc : Pc} (h : UpgradesReplaced s) (hpc : ∀ r ∈ s.setups,
    r.rejectedReason = some upgradedReason → Awaits s.pc r → Awaits pc r) : UpgradesReplaced ⟨s.setups, pc⟩ :=
  fun r hr hreason => (h r hr hreason).imp_right (hpc r hr hreason)

theorem UpgradesReplaced.idle {pc : Pc} (h : UpgradesReplaced s) (hpc : s.pc.arms = none) :
    UpgradesReplaced ⟨s.setups, pc⟩ :=
  h.goto fun r _ _ ha => absurd ha (not_awaits hpc r)

theorem UpgradesReplaced.goes {pc pc' : Pc} {op : Op} (h : UpgradesReplaced ⟨setups, pc⟩)
    (hgoes : Goes setups pc op pc') : UpgradesReplaced ⟨setups, pc'⟩ := by
  cases hgoes with
  | stays => exact h
  | armedAll w v hmodes =>
    refine h.goto fun r _ _ ha => ?_
    -- the candidate has armed its last mode
    obtain ⟨w', hw', -, mode, hmode, -⟩ := ha
    have hsame : w' = w := by cases v <;> simp_all [Pc.arms]
    simp [hsame, hmodes] at hmode
  | retiredAll w =>
    refine h.goto fun r _ _ ha => ?_
    obtain ⟨w', hw', hrest⟩ := ha
    cases hw'
    exact ⟨_, rfl, hrest⟩
  | wakes | ends | takes | selects | kept | collected | skipped | skippedLate | opposed | unopposed | approved =>
    exact h.idle rfl

theorem UpgradesReplaced.armed {id : Uuid} {modes : List String} (h : UpgradesReplaced s) (hinv : s.Inv)
    (hpc : s.pc = .arming w .viable) (hmodes : w.modesToArm = mode :: modes) :
    UpgradesReplaced ⟨s.setups ++ [w.setup .viable mode id], .retiring { w with modesToArm := modes } w.superseded⟩ := by
  have hholds := hinv.holds
  rw [hpc] at hholds
  intro r hr hreason
  rcases List.mem_append.1 hr with hold | hnew
  · rcases h r hold hreason with hrep | ⟨w', hw', hid, m, hm, hslot⟩
    · exact .inl (hrep.append _)
    · rw [hpc] at hw'
      cases hw'
      rcases List.mem_cons.1 (hmodes ▸ hm) with rfl | hm
      · -- the slot of `r` is the one just armed
        obtain ⟨-, -, hmin, -⟩ := (hholds.2.2 rfl).below r hold hid
        exact .inl ⟨_, List.mem_append_right _ (List.mem_singleton_self _), rfl, hslot.symm, hmin⟩
      · exact .inr ⟨_, rfl, hid, m, hm, hslot⟩
  · rw [List.mem_singleton.1 hnew] at hreason
    cases hreason

theorem UpgradesReplaced.rejected {id : Uuid} {modes : List String} (h : UpgradesReplaced s)
    (hpc : s.pc = .arming w v) (hv : v ≠ .viable) :
    UpgradesReplaced ⟨s.setups ++ [w.setup v mode id], .arming { w with modesToArm := modes } v⟩ := by
  have harms : s.pc.arms = none := by
    rw [hpc]
    cases v <;> simp_all [Pc.arms]
  intro r hr hreason
  rcases List.mem_append.1 hr with hr | hr
  · exact .inl (((h r hr hreason).resolve_right (not_awaits harms r)).append _)
  · rw [List.mem_singleton.1 hr] at hreason
    cases v <;> simp [Work.setup, Viability.rejectedReason, upgradedReason] at hreason

theorem UpgradesReplaced.insert (h : UpgradesReplaced s) (hinv : s.Inv) {id : Option Uuid}
    (hclean : AbortsClean s (.insert id)) : UpgradesReplaced (s.insert id) := by
  rw [AbortsClean, step] at hclean
  have hinserts := insert_inserts s id
  generalize s.insert id = s' at hinserts hclean ⊢
  cases hinserts with
  | idle => exact h
  | fails _ hpc => exact h.goto fun r hr hreason ha => absurd ha (hclean rfl r hr hreason)
  | armed hpc hmodes hfresh => exact h.armed hinv hpc hmodes
  | rejected hpc hmodes hv hfresh => exact h.rejected hpc hv

/-- Rows that age and keep their reason, apart from those that are excused. -/
theorem UpgradesReplaced.aged (h : UpgradesReplaced s) (hage : List.Forall₂ Setup.Aged s.setups setups')
    (hreason : ∀ r' ∈ setups', r'.rejectedReason = some upgradedReason →
      (∃ r ∈ s.setups, r.Aged r' ∧ r.rejectedReason = some upgradedReason) ∨ Replaced setups' r' ∨ Awaits s.pc r') :
    UpgradesReplaced ⟨setups', s.pc⟩ := by
  intro r' hr' hupgraded
  rcases hreason r' hr' hupgraded with ⟨r, hr, hrr', hreason⟩ | hdone
  · rcases h r hr hreason with hrep | ⟨w, hw, hid, mode, hmode, hslot⟩
    · exact .inl (hrep.aged hage hrr')
    · exact .inr ⟨w, hw, hrr'.id ▸ hid, mode, hmode, hrr'.slot.trans hslot⟩
  · exact hdone

/-- What is retired has been collected by the candidate, which has armed its mode or will. -/
theorem UpgradesReplaced.retire (h : UpgradesReplaced s) (hinv : s.Inv) : UpgradesReplaced s.retire := by
  obtain ⟨setups, pc⟩ := s
  cases pc with
  | retiring w ids =>
    cases ids with
    | nil => exact h
    | cons id ids =>
      have hage := updateLive_aged id (fun r _ => retired_aged r) setups
      obtain ⟨-, -, hlow, hsub, -⟩ := hinv.holds
      refine UpgradesReplaced.goto (s := ⟨updateLive id retired setups, .retiring w (id :: ids)⟩) ?_ fun _ _ _ ha => ha
      refine h.aged hage fun r' hr' hupgraded => ?_
      rcases mem_updateLive hr' with ⟨hr, -⟩ | ⟨r, hr, rfl, -, rfl⟩
      · exact .inl ⟨r', hr, .refl r', hupgraded⟩
      · have hid := hsub List.mem_cons_self
        obtain ⟨m, hslot, hmin, hm | harmed⟩ := hlow.below r hr hid
        · exact .inr (.inr ⟨w, rfl, hid, m, hm, hslot⟩)
        · obtain ⟨q, hq, hopened, hqslot, hqtf⟩ := harmed
          have hrep : Replaced setups r := ⟨q, hq, hopened, hqslot.trans hslot.symm, by
            rw [Setup.barMinutes, Setup.barMinutes, hqtf]
            exact hmin⟩
          exact .inr (.inl (hrep.aged hage (retired_aged r)))
  | _ => exact h

theorem UpgradesReplaced.moved (h : UpgradesReplaced s) (id : Uuid) (state : SetupState) :
    UpgradesReplaced (s.step (.moved id state)) := by
  refine h.aged (updateLive_aged id (fun r hlive => moved_aged r state hlive) s.setups) fun r' hr' hupgraded => ?_
  rcases mem_updateLive hr' with ⟨hr, -⟩ | ⟨r, hr, -, hlive, rfl⟩
  · exact .inl ⟨r', hr, .refl r', hupgraded⟩
  · exact .inl ⟨r, hr, moved_aged r state hlive, hupgraded⟩

theorem upgradesReplaced_step (h : UpgradesReplaced s) (hinv : s.Inv) {op : Op} (hclean : AbortsClean s op) :
    UpgradesReplaced (s.step op) := by
  rcases step_cases s op with ⟨pc, hgoes, hstep⟩ | ⟨id, rfl⟩ | rfl | ⟨id, state, rfl⟩
  · rw [hstep]
    exact h.goes hgoes
  · exact h.insert hinv hclean
  · exact h.retire hinv
  · exact h.moved id state

end State

/-! ## Both directions of a market -/

/-- What the opposing gate looks at. -/
def Slot.market (k : Slot) : String × String × Profile := (k.exchange, k.symbol, k.profile)

/-- Every holder in the candidate's market has its direction. -/
def Work.Uncontested (setups : List Setup) (w : Work) : Prop :=
  ∀ r ∈ setups, r.live → ∀ mode, r.slot.market = (w.cand.slot mode).market → r.slot.direction = w.cand.direction

def Op.Gated : Op → Prop
  | .tick cfg _ => cfg.mtfOpposingGateEnabled
  | _ => True

/-- The gate is on, and has been passed where the candidate is past it. -/
def Pc.Gated (setups : List Setup) : Pc → Prop
  | .sleeping => True
  | .loopHead t => t.cfg.mtfOpposingGateEnabled
  | .dedup w _ => w.tick.cfg.mtfOpposingGateEnabled
  | .gates w => w.tick.cfg.mtfOpposingGateEnabled
  | .approval w => w.tick.cfg.mtfOpposingGateEnabled ∧ w.Uncontested setups
  | .arming w _ => w.tick.cfg.mtfOpposingGateEnabled ∧ w.Uncontested setups
  | .retiring w _ => w.tick.cfg.mtfOpposingGateEnabled ∧ w.Uncontested setups

namespace State
variable {s : State}

/-- No long and short setup of one exchange, symbol and profile are armed or active together. -/
def NoOpposites (s : State) : Prop :=
  ∀ r ∈ s.setups, ∀ r' ∈ s.setups, r.live → r'.live → r.slot.market = r'.slot.market →
    r.slot.direction = r'.slot.direction

structure Gated (s : State) : Prop where
  noOpposites : s.NoOpposites
  pc : s.pc.Gated s.setups

theorem gated_start : start.Gated := ⟨by simp [NoOpposites, start], trivial⟩

theorem uncontested_aged (h : List.Forall₂ Setup.Aged setups setups') (hw : w.Uncontested setups) :
    w.Uncontested setups' := by
  intro r' hr' hlive mode hmarket
  obtain ⟨r, hr, hage⟩ := exists_older h r' hr'
  rw [hage.slot] at hmarket ⊢
  exact hw r hr (hage.live hlive) mode hmarket

theorem Gated.aged (h : s.Gated) (hage : List.Forall₂ Setup.Aged s.setups setups') : Gated ⟨setups', s.pc⟩ := by
  obtain ⟨setups, pc⟩ := s
  refine ⟨?_, ?_⟩
  · intro r hr r' hr' hlive hlive' hmarket
    obtain ⟨q, hq, hqr⟩ := exists_older hage r hr
    obtain ⟨q', hq', hqr'⟩ := exists_older hage r' hr'
    rw [hqr.slot, hqr'.slot] at hmarket ⊢
    exact h.noOpposites q hq q' hq' (hqr.live hlive) (hqr'.live hlive') hmarket
  · have hpc := h.pc
    cases pc with
    | approval w => exact hpc.imp_right (uncontested_aged hage)
    | arming w v => exact hpc.imp_right (uncontested_aged hage)
    | retiring w ids => exact hpc.imp_right (uncontested_aged hage)
    | _ => exact hpc

theorem Gated.goto {pc : Pc} (h : s.Gated) (hpc : pc.Gated s.setups) : Gated ⟨s.setups, pc⟩ := ⟨h.noOpposites, hpc⟩

/-- Past the gate, the market holds no other direction. -/
theorem uncontested_of_oppose (hgate : w.tick.cfg.mtfOpposingGateEnabled)
    (hpass : Pc.oppose setups (.gates w) = .approval w) : w.Uncontested setups := by
  rw [Pc.oppose] at hpass
  split at hpass
  next => cases hpass
  next hnone =>
    intro r hr hlive mode hmarket
    simp only [hgate, Bool.true_and, List.any_eq_true, not_exists, not_and] at hnone
    have hdir := hnone r hr
    simp only [Slot.market, Candidate.slot, Prod.mk.injEq] at hmarket
    simpa [hlive, hmarket] using hdir

theorem Gated.goes {pc pc' : Pc} {op : Op} (h : Gated ⟨setups, pc⟩) (hop : op.Gated)
    (hgoes : Goes setups pc op pc') : Gated ⟨setups, pc'⟩ := by
  have hpc := h.pc
  cases hgoes with
  | stays => exact h
  | wakes => exact h.goto hop
  | ends => exact h.goto trivial
  | takes | selects | kept | collected | skipped | opposed | approved | retiredAll => exact h.goto hpc
  | skippedLate | armedAll => exact h.goto hpc.1
  | unopposed w hpass => exact h.goto ⟨hpc, uncontested_of_oppose hpc hpass⟩

theorem Gated.append {row : Setup} {pc : Pc} (h : s.Gated)
    (hrow : row.live → ∀ r ∈ s.setups, r.live → r.slot.market = row.slot.market → r.slot.direction = row.slot.direction)
    (hpc : pc.Gated (s.setups ++ [row])) : Gated ⟨s.setups ++ [row], pc⟩ := by
  refine ⟨?_, hpc⟩
  intro r hr r' hr' hlive hlive' hmarket
  simp only [List.mem_append, List.mem_singleton] at hr hr'
  rcases hr with hr | rfl <;> rcases hr' with hr' | rfl
  · exact h.noOpposites r hr r' hr' hlive hlive' hmarket
  · exact hrow hlive' r hr hlive hmarket
  · exact (hrow hlive r' hr' hlive' hmarket.symm).symm
  · rfl

theorem uncontested_append (hw : w.Uncontested setups) (v : Viability) (mode : String) (id : Uuid) :
    w.Uncontested (setups ++ [w.setup v mode id]) := by
  intro r hr hlive m hmarket
  rcases List.mem_append.1 hr with hr | hr
  · exact hw r hr hlive m hmarket
  · rw [List.mem_singleton.1 hr]
    rfl

theorem Gated.insert (h : s.Gated) (id : Option Uuid) : (s.insert id).Gated := by
  have hpc := h.pc
  have hinserts := insert_inserts s id
  generalize s.insert id = s' at hinserts ⊢
  cases hinserts with
  | idle => exact h
  | fails _ _ => exact h.goto trivial
  | armed harming hmodes hfresh =>
    rw [harming] at hpc
    exact h.append (fun _ r hr hlive hmarket => hpc.2 r hr hlive _ hmarket)
      ⟨hpc.1, uncontested_append hpc.2 _ _ _⟩
  | rejected harming hmodes hv hfresh =>
    rw [harming] at hpc
    exact h.append (fun hlive => absurd hlive (not_live_rejected _ hv _ _)) ⟨hpc.1, uncontested_append hpc.2 _ _ _⟩

theorem Gated.retire (h : s.Gated) : s.retire.Gated := by
  obtain ⟨setups, pc⟩ := s
  cases pc with
  | retiring w ids =>
    cases ids with
    | nil => exact h
    | cons id ids =>
      have hage := h.aged (updateLive_aged id (fun r _ => retired_aged r) setups)
      exact hage.goto hage.pc
  | _ => exact h

theorem gated_step (h : s.Gated) {op : Op} (hop : op.Gated) : (s.step op).Gated := by
  rcases step_cases s op with ⟨pc, hgoes, hstep⟩ | ⟨id, rfl⟩ | rfl | ⟨id, state, rfl⟩
  · rw [hstep]
    exact h.goes hop hgoes
  · exact h.insert id
  · exact h.retire
  · exact h.aged (updateLive_aged id (fun r hlive => moved_aged r state hlive) s.setups)

/-! ## Runs -/

/-- **The allocator**, over every run of ticks with the moves of the other loops in between. -/
theorem allocator_sound (ops : List Op) :
    AllStates step OneSetupPerSlot start ops
      ∧ (AllSteps step AbortsClean start ops → AllStates step UpgradesReplaced start ops)
      ∧ ((∀ op ∈ ops, op.Gated) → AllStates step NoOpposites start ops) := by
  refine ⟨?_, fun hclean => ?_, fun hgated => ?_⟩
  · exact (allStates_of_step (J := Inv) (fun _ op h => inv_step h op) inv_start ops).imp fun _ h => h.oneSetup
  · have hboth := allStates_of_allSteps (J := fun s => s.Inv ∧ s.UpgradesReplaced) (K := fun _ => True)
      (fun s op h _ hc => ⟨inv_step h.1 op, upgradesReplaced_step h.2 h.1 hc⟩)
      ⟨inv_start, by simp [UpgradesReplaced, start]⟩ (fun _ _ => trivial) hclean
    exact hboth.imp fun _ h => h.2
  · have hall := allStates_of_allSteps (G := fun _ _ => True) (J := Gated) (K := Op.Gated)
      (fun s op h hop _ => gated_step h hop) gated_start hgated
      (allSteps_of_forall (fun _ _ => trivial) _ _)
    exact hall.imp fun _ h => h.noOpposites

/-! ## A higher timeframe in two modes -/

def twoModes : Cfg := ⟨["dry", "live"], 0, true, by decide⟩

def btc (timeframe : String) : Candidate := ⟨"binance", "BTCUSDT", timeframe, "strong_bull"⟩

/-- Up to the first INSERT for a candidate of two modes. -/
def toArming (timeframe : String) : List Op :=
  [.tick twoModes [btc timeframe], .next, .select, .select, .next, .oppose, .approve .viable]

/-- A setup of one hour in each mode. -/
def hourly : List Op := toArming "1h" ++ [.insert (some 0), .next, .insert (some 1), .next, .next, .next]

/-- Four hours in the first mode. -/
def fourHours : List Op := hourly ++ toArming "4h" ++ [.insert (some 2)]

/-- Both setups of one hour are replaced. -/
def upgraded : List Op := fourHours ++ [.retire, .retire, .next, .insert (some 3), .retire, .retire, .next, .next, .next]

/-- The tick goes on, or no candidate is being armed. -/
def Onward (s : State) (op : Op) : Bool :=
  s.pc.arms.isNone || match (s.step op).pc with
    | .sleeping => false
    | _ => true

theorem abortsClean_of_onward {s : State} {op : Op} (h : s.Onward op = true) : AbortsClean s op := by
  intro hsleeping r _ _
  unfold Onward at h
  rw [hsleeping, Bool.or_false, Option.isNone_iff_eq_none] at h
  exact not_awaits h r

theorem allocator_sound_upgraded :
    AllStates step OneSetupPerSlot start upgraded ∧ AllStates step UpgradesReplaced start upgraded ∧
      AllStates step NoOpposites start upgraded ∧
      ((run step start upgraded).setups.map (·.rejectedReason)) = [some upgradedReason, some upgradedReason, none, none] := by
  have honward : AllSteps step (fun s op => s.Onward op = true) start upgraded := by decide +kernel
  have hclean : AllSteps step AbortsClean start upgraded :=
    allSteps_of_invariant (J := fun _ => True) (K := fun _ => True)
      (fun _ _ _ _ h => ⟨trivial, abortsClean_of_onward h⟩) trivial (fun _ _ => trivial) honward
  have hgated : ∀ op ∈ upgraded, op.Gated := by
    simp [upgraded, fourHours, hourly, toArming, Op.Gated, twoModes]
  obtain ⟨hslots, hreplaced, hopposites⟩ := allocator_sound upgraded
  exact ⟨hslots, hreplaced hclean, hopposites hgated, by decide +kernel⟩

/-- The new setup and the one it replaces hold the slot together until the UPDATE. Then the INSERT for the second
mode fails: the setup retired for it has no replacement. -/
theorem replaced_together_and_alone :
    (∃ r ∈ (run step start fourHours).setups, ∃ r' ∈ (run step start fourHours).setups,
        r.live ∧ r'.live ∧ r.slot = r'.slot ∧ r.id ≠ r'.id) ∧
      ∃ r ∈ (run step start (fourHours ++ [.retire, .retire, .next, .insert none])).setups,
        r.rejectedReason = some upgradedReason ∧
          ¬ Replaced (run step start (fourHours ++ [.retire, .retire, .next, .insert none])).setups r := by
  decide +kernel

end State
end Qtss.Worker.Allocator
