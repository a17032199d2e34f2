import Mathlib.Data.List.Nodup
import Mathlib.Logic.Function.Basic
/-!
# Work that is claimed once

Any number of workers claim keys of a table that has a row for each claimed key. A worker that has a key sends at most
one order for it, settles on a status and writes that to the row. Rows are never deleted and a row that is there is never
claimed again, so:

* whatever fails, at most one order is sent for a key (`sentOnce` of `Inv`, which every step keeps: `Inv.step`);
* a row is open exactly as long as a worker has its key, but for orphans, whose worker dropped them. An orphan stays one
  (`orphan_step`), and a step makes one exactly when it `Drops` its key (`hasOrphan_step_iff`).
-/
namespace ClaimOnce

variable {κ σ ω : Type*}

/-- How far a worker is with its key. -/
inductive Phase (κ σ : Type*) where
  | idle
  | claimed (k : κ)
  | closing (k : κ) (status : σ)

/-- The key that a worker has. -/
def Phase.holds : Phase κ σ → Option κ
  | .idle => none
  | .claimed k => some k
  | .closing k _ => some k

theorem Phase.idle_holds {k : κ} : (idle : Phase κ σ).holds ≠ some k := nofun

/-- The row of a claimed key is open until it has a status. -/
inductive Row (σ : Type*) where
  | opened
  | closed (status : σ)

@[ext] structure State (κ σ ω : Type*) where
  row : κ → Option (Row σ)
  worker : ℕ → Phase κ σ
  sent : List (κ × ω)

inductive Op (κ σ ω : Type*) where
  | rest
  | claim (w : ℕ) (k : κ)
  | work (w : ℕ) (order : Option ω) (status : σ)
  | close (w : ℕ) (ok : Bool)
  | crash (w : ℕ)

namespace State

def setWorker (s : State κ σ ω) (w : ℕ) (phase : Phase κ σ) : State κ σ ω :=
  { s with worker := Function.update s.worker w phase }

variable {s : State κ σ ω} {op : Op κ σ ω} {w w' : ℕ} {k k' : κ} {phase : Phase κ σ} {r : Row σ}

@[simp] theorem setWorker_worker : (s.setWorker w phase).worker w' = if w' = w then phase else s.worker w' := by
  simp only [setWorker, Function.update_apply]

@[simp] theorem setWorker_row : (s.setWorker w phase).row = s.row := rfl

@[simp] theorem setWorker_sent : (s.setWorker w phase).sent = s.sent := rfl

theorem setWorker_self (h : s.worker w = phase) : s.setWorker w phase = s := by
  unfold setWorker
  rw [← h, Function.update_eq_self]

/-! ## The invariant -/

structure Inv (s : State κ σ ω) : Prop where
  /-- The row of a key that a worker has is open, -/
  held : ∀ w k, (s.worker w).holds = some k → ∃ r ∈ s.row k, r = .opened
  /-- and no other worker has the key. -/
  exclusive : ∀ w w' k, (s.worker w).holds = some k → (s.worker w').holds = some k → w = w'
  sentOnce : (s.sent.map (·.1)).Nodup
  sentRow : ∀ p ∈ s.sent, s.row p.1 ≠ none
  sentFree : ∀ p ∈ s.sent, ∀ w, s.worker w ≠ .claimed p.1

theorem inv_start : Inv (⟨fun _ => none, fun _ => .idle, []⟩ : State κ σ ω) where
  held _ _ h := nomatch h
  exclusive _ _ _ h := nomatch h
  sentOnce := List.nodup_nil
  sentRow _ h := nomatch h
  sentFree _ h := nomatch h

/-- A worker lets go of its key. -/
theorem Inv.setWorker_idle (h : s.Inv) (w : ℕ) : (s.setWorker w .idle).Inv := by
  have hback : ∀ w' k, ((s.setWorker w .idle).worker w').holds = some k → (s.worker w').holds = some k := by
    intro w' k hw'
    rw [setWorker_worker] at hw'
    split at hw'
    · cases hw'
    · exact hw'
  refine ⟨fun w' k hw' => h.held w' k (hback w' k hw'),
    fun w₁ w₂ k h₁ h₂ => h.exclusive w₁ w₂ k (hback w₁ k h₁) (hback w₂ k h₂), h.sentOnce, h.sentRow, ?_⟩
  intro p hp w'
  rw [setWorker_worker]
  split
  · exact nofun
  · exact h.sentFree p hp w'

theorem Inv.work (h : s.Inv) (hw : s.worker w = .claimed k) (order : Option ω) (status : σ) :
    Inv ({ s with sent := s.sent ++ (order.map fun o => (k, o)).toList }.setWorker w (.closing k status)) := by
  have hholds : (s.worker w).holds = some k := by rw [hw]; rfl
  have hback : ∀ w' k', (if w' = w then Phase.closing k status else s.worker w').holds = some k' →
      (s.worker w').holds = some k' := by
    intro w' k' hw'
    split at hw'
    next heq => rw [heq, hholds]; exact hw'
    next => exact hw'
  have hnew : ∀ p ∈ (order.map fun o => (k, o)).toList, p.1 = k := by
    cases order <;> simp
  constructor
  · intro w' k' hw'
    rw [setWorker_worker] at hw'
    exact h.held w' k' (hback w' k' hw')
  · intro w₁ w₂ k' h₁ h₂
    rw [setWorker_worker] at h₁ h₂
    exact h.exclusive w₁ w₂ k' (hback w₁ k' h₁) (hback w₂ k' h₂)
  · rw [setWorker_sent, List.map_append]
    cases order with
    | none => simpa using h.sentOnce
    | some o =>
      refine List.nodup_append.2 ⟨h.sentOnce, List.nodup_singleton _, ?_⟩
      rintro a ha b hb rfl
      obtain ⟨p, hp, rfl⟩ := List.mem_map.1 ha
      obtain rfl : p.1 = k := by simpa using hb
      exact h.sentFree p hp w hw
  · intro p hp
    rcases List.mem_append.1 hp with hp | hp
    · exact h.sentRow p hp
    · obtain ⟨r, hr, -⟩ := h.held w k hholds
      rw [hnew p hp, setWorker_row, hr]
      exact nofun
  · intro p hp w'
    rw [setWorker_worker]
    split
    · exact nofun
    · rename_i hne
      rcases List.mem_append.1 hp with hp | hp
      · exact h.sentFree p hp w'
      · intro hclaimed
        rw [hnew p hp] at hclaimed
        exact hne (h.exclusive w' w k (by rw [hclaimed]; rfl) hholds)

/-- A row that is open although no worker has its key. -/
structure Orphan (s : State κ σ ω) (k : κ) : Prop where
  row : ∃ r ∈ s.row k, r = .opened
  free : ∀ w, (s.worker w).holds ≠ some k

theorem free_setWorker (hfree : ∀ w', (s.worker w').holds ≠ some k) (hphase : phase.holds ≠ some k) (w w' : ℕ) :
    ((s.setWorker w phase).worker w').holds ≠ some k := by
  rw [setWorker_worker]
  split
  · exact hphase
  · exact hfree w'

theorem free_of_setWorker (hfree : ∀ w', ((s.setWorker w phase).worker w').holds ≠ some k)
    (hw : (s.worker w).holds ≠ some k) (w' : ℕ) : (s.worker w').holds ≠ some k := by
  by_cases heq : w' = w
  · rw [heq]
    exact hw
  · have hw' := hfree w'
    rwa [setWorker_worker, if_neg heq] at hw'

/-- A worker that lets go leaves an orphan. -/
theorem orphan_of_dropped (h : s.Inv) (hw : (s.worker w).holds = some k) : (s.setWorker w .idle).Orphan k where
  row := h.held w k hw
  free w' hw' := by
    rw [setWorker_worker] at hw'
    split at hw'
    next => cases hw'
    next hne => exact hne (h.exclusive w' w k hw' hw)

/-! ## Steps -/

variable [DecidableEq κ]

def setRow (s : State κ σ ω) (k : κ) (r : Row σ) : State κ σ ω :=
  { s with row := Function.update s.row k (some r) }

@[simp] theorem setRow_row : (s.setRow k r).row k' = if k' = k then some r else s.row k' := by
  simp only [setRow, Function.update_apply]

@[simp] theorem setRow_worker : (s.setRow k r).worker = s.worker := rfl

@[simp] theorem setRow_sent : (s.setRow k r).sent = s.sent := rfl

def step (s : State κ σ ω) : Op κ σ ω → State κ σ ω
  | .rest => s
  | .claim w k =>
    match s.worker w, s.row k with
    | .idle, none => (s.setRow k .opened).setWorker w (.claimed k)
    | _, _ => s
  | .work w order status =>
    match s.worker w with
    | .claimed k =>
      { s with sent := s.sent ++ (order.map fun o => (k, o)).toList }.setWorker w (.closing k status)
    | _ => s
  | .close w ok =>
    match s.worker w with
    | .closing k status => (if ok then s.setRow k (.closed status) else s).setWorker w .idle
    | _ => s
  | .crash w => s.setWorker w .idle

theorem Inv.claim (h : s.Inv) (w : ℕ) (hk : s.row k = none) :
    ((s.setRow k .opened).setWorker w (.claimed k)).Inv := by
  have hfree : ∀ w', (s.worker w').holds ≠ some k := by
    intro w' hw'
    obtain ⟨r, hr, -⟩ := h.held w' k hw'
    rw [hk] at hr
    cases hr
  constructor
  · intro w' k' hw'
    rw [setWorker_worker, setRow_worker] at hw'
    rw [setWorker_row, setRow_row]
    split at hw'
    · obtain rfl := Option.some.inj hw'
      exact ⟨_, by simp, rfl⟩
    · rw [if_neg (by rintro rfl; exact hfree w' hw')]
      exact h.held w' k' hw'
  · intro w₁ w₂ k' h₁ h₂
    rw [setWorker_worker, setRow_worker] at h₁ h₂
    split at h₁ <;> split at h₂
    next heq₁ heq₂ => rw [heq₁, heq₂]
    next =>
      obtain rfl := Option.some.inj h₁
      exact absurd h₂ (hfree w₂)
    next =>
      obtain rfl := Option.some.inj h₂
      exact absurd h₁ (hfree w₁)
    next => exact h.exclusive w₁ w₂ k' h₁ h₂
  · exact h.sentOnce
  · intro p hp
    rw [setWorker_row, setRow_row]
    split
    · exact nofun
    · exact h.sentRow p hp
  · intro p hp w'
    rw [setWorker_worker, setRow_worker]
    split
    · rintro heq
      obtain rfl := Phase.claimed.inj heq
      exact h.sentRow p hp hk
    · exact h.sentFree p hp w'

theorem Inv.close (h : s.Inv) {status : σ} (hw : s.worker w = .closing k status) :
    ((s.setRow k (.closed status)).setWorker w .idle).Inv := by
  have hholds : (s.worker w).holds = some k := by rw [hw]; rfl
  have hidle := h.setWorker_idle w
  refine ⟨fun w' k' hw' => ?_, hidle.exclusive, h.sentOnce, fun p hp => ?_, hidle.sentFree⟩
  · have hold := hidle.held w' k' hw'
    rw [setWorker_row, setRow_row, if_neg]
    · exact hold
    · rintro rfl
      rw [setWorker_worker, setRow_worker] at hw'
      split at hw'
      next => cases hw'
      next hne => exact hne (h.exclusive w' w k' hw' hholds)
  · rw [setWorker_row, setRow_row]
    split
    · exact nofun
    · exact h.sentRow p hp

theorem Inv.step (h : s.Inv) (op : Op κ σ ω) : (s.step op).Inv := by
  cases op with
  | rest => exact h
  | claim w k =>
    simp only [State.step]
    split
    next hk => exact h.claim w hk
    next => exact h
  | work w order status =>
    simp only [State.step]
    split
    next k hw => exact h.work hw order status
    next => exact h
  | close w ok =>
    simp only [State.step]
    split
    next k status hw =>
      cases ok with
      | true => exact h.close hw
      | false => exact h.setWorker_idle w
    next => exact h
  | crash w => exact h.setWorker_idle w

/-! ## Orphans -/

/-- The step lets go of a key whose row it leaves open. -/
def Drops (s : State κ σ ω) : Op κ σ ω → Prop
  | .crash w => (s.worker w).holds ≠ none
  | .close w false => ∃ k status, s.worker w = .closing k status
  | _ => False

/-- Nobody comes back for an orphan. -/
theorem orphan_step (ho : s.Orphan k) (op : Op κ σ ω) : (s.step op).Orphan k := by
  obtain ⟨⟨r, hr, hopened⟩, hfree⟩ := ho
  cases op with
  | rest => exact ⟨⟨r, hr, hopened⟩, hfree⟩
  | claim w k' =>
    simp only [State.step]
    split
    next hw hk' =>
      have hne : k ≠ k' := by
        rintro rfl
        rw [hk'] at hr
        cases hr
      refine ⟨⟨r, by simpa [hne] using hr, hopened⟩, free_setWorker hfree ?_ w⟩
      exact fun heq => hne (Option.some.inj heq).symm
    next => exact ⟨⟨r, hr, hopened⟩, hfree⟩
  | work w order status =>
    simp only [State.step]
    split
    next k' hw =>
      have hne : (Phase.closing k' status).holds ≠ some k := by
        have hw' := hfree w
        rwa [hw] at hw'
      exact ⟨⟨r, hr, hopened⟩, free_setWorker hfree hne w⟩
    next => exact ⟨⟨r, hr, hopened⟩, hfree⟩
  | close w ok =>
    simp only [State.step]
    split
    next k' status hw =>
      cases ok with
      | true =>
        have hne : k ≠ k' := fun heq => hfree w (by rw [hw, heq]; rfl)
        exact ⟨⟨r, by simpa [hne] using hr, hopened⟩, free_setWorker hfree Phase.idle_holds w⟩
      | false => exact ⟨⟨r, hr, hopened⟩, free_setWorker hfree Phase.idle_holds w⟩
    next => exact ⟨⟨r, hr, hopened⟩, hfree⟩
  | crash w => exact ⟨⟨r, hr, hopened⟩, free_setWorker hfree Phase.idle_holds w⟩

theorem orphan_of_drops (h : s.Inv) (hdrops : s.Drops op) : ∃ k, (s.step op).Orphan k := by
  cases op with
  | rest | claim | work => exact hdrops.elim
  | crash w =>
    obtain ⟨k, hk⟩ := Option.ne_none_iff_exists'.1 hdrops
    exact ⟨k, orphan_of_dropped h hk⟩
  | close w ok =>
    cases ok with
    | true => exact hdrops.elim
    | false =>
      obtain ⟨k, status, hw⟩ := hdrops
      have hstep : s.step (.close w false) = s.setWorker w .idle := by simp [State.step, hw]
      exact ⟨k, hstep ▸ orphan_of_dropped h (by rw [hw]; rfl)⟩

/-- A step that drops nothing makes no orphan. -/
theorem orphan_before (hkeep : ¬ s.Drops op) (ho : (s.step op).Orphan k) : s.Orphan k := by
  cases op with
  | rest => exact ho
  | claim w k' =>
    simp only [State.step] at ho
    split at ho
    next hw hk' =>
      obtain ⟨⟨r, hr, hopened⟩, hfree⟩ := ho
      have hne : k ≠ k' := by
        rintro rfl
        exact hfree w (by simp [Phase.holds])
      refine ⟨⟨r, by simpa [hne] using hr, hopened⟩, free_of_setWorker hfree ?_⟩
      rw [hw]
      exact Phase.idle_holds
    next => exact ho
  | work w order status =>
    simp only [State.step] at ho
    split at ho
    next k' hw =>
      refine ⟨ho.row, free_of_setWorker ho.free ?_⟩
      have hw' := ho.free w
      rw [setWorker_worker, if_pos rfl] at hw'
      rw [hw]
      exact hw'
    next => exact ho
  | close w ok =>
    simp only [State.step] at ho
    split at ho
    next k' status hw =>
      cases ok with
      | false => exact absurd ⟨k', status, hw⟩ hkeep
      | true =>
        obtain ⟨⟨r, hr, hopened⟩, hfree⟩ := ho
        simp only [if_true, setWorker_row, setRow_row] at hr
        split at hr
        next => rw [← Option.some.inj hr] at hopened; cases hopened
        next hne =>
          refine ⟨⟨r, hr, hopened⟩, free_of_setWorker hfree ?_⟩
          intro heq
          rw [hw] at heq
          exact hne (Option.some.inj heq).symm
    next => exact ho
  | crash w =>
    refine ⟨ho.row, free_of_setWorker ho.free ?_⟩
    intro heq
    exact hkeep (by rw [Drops, heq]; exact nofun)

/-- **One step** leaves an orphan exactly where there was one or it drops its key. -/
theorem hasOrphan_step_iff (h : s.Inv) (op : Op κ σ ω) :
    (∃ k, (s.step op).Orphan k) ↔ (∃ k, s.Orphan k) ∨ s.Drops op := by
  constructor
  · rintro ⟨k, ho⟩
    by_cases hdrops : s.Drops op
    · exact .inr hdrops
    · exact .inl ⟨k, orphan_before hdrops ho⟩
  · rintro (⟨k, ho⟩ | hdrops)
    · exact ⟨k, orphan_step ho op⟩
    · exact orphan_of_drops h hdrops

end State
end ClaimOnce
