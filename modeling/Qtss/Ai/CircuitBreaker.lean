import Mathlib.Data.List.TakeWhile
import Qtss.Lib.Runs
/-
# The circuit breaker of a provider (`qtss-ai/src/circuit_breaker.rs`, `complete_with_retry` of client.rs:60)

Any number of callers share one breaker, and each atomic load or store is a step of one of them:

| here | there |
| --- | --- |
| `Op.load`, `Op.check` | `allow` (circuit_breaker.rs:36): the load of `opened_at`, and what it is compared with the clock |
| `Op.clear`, `Op.reset` | the two stores of `record_success` (:46) |
| `Op.count`, `Op.trip` | the `fetch_add` of `record_failure` (:52), and its store where the threshold is reached |

The attempts of one call are between its `check` and what is recorded of it, and touch nothing here. The clock is an
argument of the steps that read it, and may go either way.

A failure counts from its `fetch_add` on, and a success from the store that sets the counter to 0. A breaker only opens
after enough failures in a row. "Half-open, allow one probe" is another matter: `allow` changes nothing, so whoever comes
before the first probe has been recorded is let through as well (`breaker_iff`).
-/

namespace Qtss.Ai.CircuitBreaker
open Runs

/-- `CircuitBreaker::new`: at least 1, and at least 5 seconds. -/
structure Config where
  failureThreshold : ℕ
  recoverySecs : ℕ
  threshold_pos : 0 < failureThreshold
  recovery_le : 5 ≤ recoverySecs

theorem max_one_pos (n : ℕ) : 0 < max n 1 := by omega

def Config.new (failureThreshold recoverySecs : ℕ) : Config :=
  ⟨max failureThreshold 1, max recoverySecs 5, max_one_pos failureThreshold, by omega⟩

/-- Where a caller is. A probe was let through although the breaker was open. -/
inductive Phase where
  | idle
  | loaded (opened : ℕ)
  | calling (probe : Bool)
  | cleared (probe : Bool)
  | counted (probe : Bool)
deriving DecidableEq

/-- A probe that is not recorded yet. -/
def Phase.probing : Phase → Bool
  | .calling probe | .cleared probe | .counted probe => probe
  | _ => false

inductive Event where
  | success (caller : ℕ)
  | failure (caller : ℕ)
deriving DecidableEq

def Event.caller : Event → ℕ
  | .success c | .failure c => c

def Event.failed : Event → Bool
  | .success _ => false
  | .failure _ => true

structure State where
  /-- A `u32`. -/
  consecutiveFailures : ℕ
  /-- Seconds since 1970; 0 is closed. -/
  openedAt : ℕ
  phase : ℕ → Phase
  /-- What was recorded, the last first. -/
  events : List Event

def State.start : State := ⟨0, 0, fun _ => .idle, []⟩

inductive Op where
  | load (c : ℕ)
  | check (c now : ℕ)
  | clear (c : ℕ)
  | reset (c : ℕ)
  | count (c : ℕ)
  | trip (c now : ℕ)

def State.goto (s : State) (c : ℕ) (phase : Phase) : State := { s with phase := Function.update s.phase c phase }

/-- `saturating_sub(opened) >= recovery_secs` -/
def elapsed (cfg : Config) (opened now : ℕ) : Prop := cfg.recoverySecs ≤ now - opened

instance (cfg : Config) (opened now : ℕ) : Decidable (elapsed cfg opened now) := inferInstanceAs (Decidable (_ ≤ _))

/-- A caller that is elsewhere has no such step. -/
def step (cfg : Config) (s : State) : Op → State
  | .load c =>
    match s.phase c with
    | .idle => s.goto c (if s.openedAt = 0 then .calling false else .loaded s.openedAt)
    | _ => s
  | .check c now =>
    match s.phase c with
    | .loaded opened => s.goto c (if elapsed cfg opened now then .calling true else .idle)
    | _ => s
  | .clear c =>
    match s.phase c with
    | .calling probe =>
      { s with consecutiveFailures := 0, events := .success c :: s.events }.goto c (.cleared probe)
    | _ => s
  | .reset c =>
    match s.phase c with
    | .cleared _ => { s with openedAt := 0 }.goto c .idle
    | _ => s
  | .count c =>
    match s.phase c with
    | .calling probe =>
      let next := (s.consecutiveFailures + 1) % 2 ^ 32
      { s with consecutiveFailures := next, events := .failure c :: s.events }.goto c
        (if cfg.failureThreshold ≤ next then .counted probe else .idle)
    | _ => s
  | .trip c now =>
    match s.phase c with
    | .counted _ => { s with openedAt := now }.goto c .idle
    | _ => s

/-! ## What is asked of it -/

/-- The caller's failure is the last of enough in a row, and the last that it recorded. -/
def Earned (cfg : Config) (events : List Event) (c : ℕ) : Prop :=
  ∃ later streak earlier, events = later ++ .failure c :: streak ++ earlier ∧ (∀ e ∈ streak, e.failed) ∧
    cfg.failureThreshold ≤ streak.length + 1 ∧ ∀ e ∈ later, e.caller ≠ c

/-- The breaker opens after enough failures in a row. -/
def OpensEarned (cfg : Config) (s : State) : Op → Prop
  | .trip c _ => (∃ probe, s.phase c = .counted probe) → Earned cfg s.events c
  | _ => True

/-- At most one probe is out. -/
def OneProbe (s : State) : Prop := ∀ c c', (s.phase c).probing → (s.phase c').probing → c = c'

/-- A caller that finds the recovery time over finds no probe out. -/
def FindsNone (cfg : Config) (s : State) : Op → Prop
  | .check c now => ∀ opened, s.phase c = .loaded opened → elapsed cfg opened now → ∀ c', (s.phase c').probing = false
  | _ => True

/-! ## Failures in a row -/

variable {cfg : Config} {s : State} {op : Op} {c c' : ℕ} {phase : Phase}

@[simp] theorem goto_phase : (s.goto c phase).phase c' = if c' = c then phase else s.phase c' := by
  simp only [State.goto, Function.update_apply]



/-- The failures after the last success. -/
def streak (events : List Event) : List Event := events.takeWhile (·.failed)

structure Inv (cfg : Config) (s : State) : Prop where
  counted : s.consecutiveFailures ≤ (streak s.events).length
  earned : ∀ c probe, s.phase c = .counted probe → Earned cfg s.events c

theorem Earned.cons {events : List Event} {e : Event} (h : Earned cfg events c) (he : e.caller ≠ c) :
    Earned cfg (e :: events) c := by
  obtain ⟨later, streak, earlier, rfl, hfailed, hlong, hlater⟩ := h
  exact ⟨e :: later, streak, earlier, rfl, hfailed, hlong, List.forall_mem_cons.2 ⟨he, hlater⟩⟩

theorem earned_of_streak {events : List Event} (h : cfg.failureThreshold ≤ (streak events).length + 1) :
    Earned cfg (.failure c :: events) c := by
  refine ⟨[], streak events, events.dropWhile (·.failed), ?_, ?_, h, by simp⟩
  · rw [List.nil_append, List.cons_append, streak, List.takeWhile_append_dropWhile]
  · exact fun e he => List.mem_takeWhile_imp he

theorem inv_start (cfg : Config) : Inv cfg .start where
  counted := Nat.zero_le _
  earned _ _ h := nomatch h

/-- A caller goes on to a phase other than `counted`, and the breaker is as before. -/
theorem Inv.goto (h : Inv cfg s) (hphase : ∀ probe, phase ≠ .counted probe) : Inv cfg (s.goto c phase) where
  counted := h.counted
  earned c' probe hc' := by
    rw [goto_phase] at hc'
    split at hc'
    · exact absurd hc' (hphase probe)
    · exact h.earned c' probe hc'

/-- What a caller records. -/
theorem Inv.record (h : Inv cfg s) {e : Event} {failures : ℕ} (he : e.caller = c)
    (hfailures : failures ≤ (streak (e :: s.events)).length)
    (hphase : ∀ probe, phase = .counted probe → Earned cfg (e :: s.events) c) :
    Inv cfg ({ s with consecutiveFailures := failures, events := e :: s.events }.goto c phase) where
  counted := hfailures
  earned c' probe hc' := by
    rw [goto_phase] at hc'
    split at hc'
    next heq =>
      rw [heq]
      exact hphase probe hc'
    next hne =>
      exact (h.earned c' probe hc').cons fun heq => hne (heq.symm.trans he)

theorem inv_step (h : Inv cfg s) (op : Op) : Inv cfg (step cfg s op) := by
  cases op with
  | load c =>
    simp only [step]
    split
    · exact h.goto fun probe => by split <;> exact nofun
    · exact h
  | check c now =>
    simp only [step]
    split
    · exact h.goto fun probe => by split <;> exact nofun
    · exact h
  | clear c =>
    simp only [step]
    split
    · exact h.record rfl (Nat.zero_le _) nofun
    · exact h
  | reset c =>
    simp only [step]
    split
    · have hreset : Inv cfg { s with openedAt := 0 } := ⟨h.counted, h.earned⟩
      exact hreset.goto nofun
    · exact h
  | count c =>
    simp only [step]
    split
    · have hnext : (s.consecutiveFailures + 1) % 2 ^ 32 ≤ (streak s.events).length + 1 :=
        (Nat.mod_le _ _).trans (Nat.succ_le_succ h.counted)
      refine h.record rfl hnext fun probe hphase => ?_
      split at hphase
      next hreached => exact earned_of_streak (hreached.trans hnext)
      next => cases hphase
    · exact h
  | trip c now =>
    simp only [step]
    split
    · have htrip : Inv cfg { s with openedAt := now } := ⟨h.counted, h.earned⟩
      exact htrip.goto nofun
    · exact h

theorem opensEarned (h : Inv cfg s) (op : Op) : OpensEarned cfg s op := by
  cases op with
  | trip c now =>
    rintro ⟨probe, hc⟩
    exact h.earned c probe hc
  | _ => trivial

/-! ## Probes -/

theorem probing_goto : ((s.goto c phase).phase c').probing =
    if c' = c then phase.probing else (s.phase c').probing := by
  rw [goto_phase]
  split <;> rfl

/-- A caller that was no probe before is the only new one. -/
theorem OneProbe.goto (h : OneProbe s) (hphase : phase.probing → (s.phase c).probing) : OneProbe (s.goto c phase) := by
  have hback : ∀ c', ((s.goto c phase).phase c').probing → (s.phase c').probing := by
    intro c' hc'
    rw [probing_goto] at hc'
    split at hc'
    next heq => exact heq ▸ hphase hc'
    next => exact hc'
  exact fun c₁ c₂ h₁ h₂ => h c₁ c₂ (hback c₁ h₁) (hback c₂ h₂)

theorem oneProbe_alone (h : ∀ c', (s.phase c').probing = false) : OneProbe (s.goto c phase) := by
  have honly : ∀ c', ((s.goto c phase).phase c').probing → c' = c := by
    intro c' hc'
    rw [probing_goto] at hc'
    split at hc'
    next heq => exact heq
    next =>
      rw [h c'] at hc'
      cases hc'
  exact fun c₁ c₂ h₁ h₂ => (honly c₁ h₁).trans (honly c₂ h₂).symm

/-- Any step but the one that lets a probe through. -/
theorem oneProbe_step (h : OneProbe s) (hgood : FindsNone cfg s op) : OneProbe (step cfg s op) := by
  cases op with
  | load c =>
    simp only [step]
    split
    · refine h.goto ?_
      split <;> exact nofun
    · exact h
  | check c now =>
    simp only [step]
    split
    next opened hc =>
      by_cases helapsed : elapsed cfg opened now
      · exact oneProbe_alone (hgood opened hc helapsed)
      · rw [if_neg helapsed]
        exact h.goto nofun
    next => exact h
  | clear c =>
    simp only [step]
    split
    next probe hc =>
      have hsame : OneProbe { s with consecutiveFailures := 0, events := .success c :: s.events } := h
      exact hsame.goto fun hprobe => by rw [hc]; exact hprobe
    next => exact h
  | reset c =>
    simp only [step]
    split
    · have hsame : OneProbe { s with openedAt := 0 } := h
      exact hsame.goto nofun
    · exact h
  | count c =>
    simp only [step]
    split
    next probe hc =>
      refine OneProbe.goto (s := { s with consecutiveFailures := _, events := .failure c :: s.events }) h ?_
      intro hprobe
      rw [hc]
      split at hprobe
      · exact hprobe
      · cases hprobe
    next => exact h
  | trip c now =>
    simp only [step]
    split
    · have hsame : OneProbe { s with openedAt := now } := h
      exact hsame.goto nofun
    · exact h

/-- A caller that finds the recovery time over is let through beside the probe that is out. -/
theorem not_oneProbe_step (hbad : ¬ FindsNone cfg s op) : ¬ OneProbe (step cfg s op) := by
  cases op with
  | check c now =>
    simp only [FindsNone, not_forall, Bool.not_eq_false] at hbad
    obtain ⟨opened, hc, helapsed, c', hc'⟩ := hbad
    intro h
    have hne : c' ≠ c := by
      rintro rfl
      rw [hc] at hc'
      cases hc'
    have hstep : step cfg s (.check c now) = s.goto c (.calling true) := by simp only [step, hc, if_pos helapsed]
    rw [hstep] at h
    refine hne (h c' c ?_ ?_)
    · rw [probing_goto, if_neg hne, hc']
    · rw [probing_goto, if_pos rfl]
      rfl
  | _ => exact absurd trivial hbad

/-- **The breaker** opens after enough failures in a row, in every run; and no two probes are out at a time exactly in
the runs in which no caller finds the recovery time over while a probe is out. -/
theorem breaker_iff (cfg : Config) (ops : List Op) :
    AllSteps (step cfg) (OpensEarned cfg) .start ops ∧ AllStates (step cfg) OneProbe .start ops ↔
      AllSteps (step cfg) (FindsNone cfg) .start ops := by
  have hopens : AllSteps (step cfg) (OpensEarned cfg) .start ops :=
    allSteps_of_invariant (J := Inv cfg) (K := fun _ => True) (G := fun _ _ => True)
      (fun _ op h _ _ => ⟨inv_step h op, opensEarned h op⟩) (inv_start cfg) (fun _ _ => trivial)
      (allSteps_of_forall (fun _ _ => trivial) _ _)
  have hprobes : AllStates (step cfg) OneProbe .start ops ↔ AllSteps (step cfg) (FindsNone cfg) .start ops := by
    apply allStates_iff_allSteps (J := OneProbe) (K := fun _ => True)
    · exact fun _ h => h
    · exact fun _ _ h _ hgood => oneProbe_step h hgood
    · exact fun _ _ _ _ hbad => not_oneProbe_step hbad
    · exact fun _ _ h => nomatch h
    · exact fun _ _ => trivial
  rw [hprobes]
  exact and_iff_right hopens

/-! ## Two callers after the recovery time -/

/-- A call of caller `c` that fails, from its start to its end. -/
def failedCall (c now : ℕ) : List Op := [.load c, .check c now, .count c, .trip c now]

/-- Three failures at 100 open the breaker of the strategic layer; five minutes later two callers ask, and both are let
through. -/
theorem two_probes :
    let cfg := Config.new 3 300
    let ops := failedCall 0 100 ++ failedCall 0 100 ++ failedCall 0 100 ++ [.load 1, .check 1 400, .load 2, .check 2 400]
    let s := run (step cfg) .start ops
    ¬ AllStates (step cfg) OneProbe .start ops ∧ s.openedAt = 100 ∧ s.phase 1 = .calling true ∧
      s.phase 2 = .calling true := by
  intro cfg ops s
  have h₁ : s.phase 1 = .calling true := by decide +kernel
  have h₂ : s.phase 2 = .calling true := by decide +kernel
  refine ⟨fun h => ?_, by decide +kernel, h₁, h₂⟩
  have hsame := h.last 1 2 (by rw [show run (step cfg) .start ops = s from rfl, h₁]; rfl)
    (by rw [show run (step cfg) .start ops = s from rfl, h₂]; rfl)
  cases hsame

end Qtss.Ai.CircuitBreaker
