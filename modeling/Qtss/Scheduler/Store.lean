import Mathlib.Data.List.MinMax
import Mathlib.Data.List.Nodup
import Qtss.Lib.Runs
import Qtss.Scheduler.Schedule
/-
# The job store (`qtss-scheduler/src/store.rs`)

| here | there |
| --- | --- |
| `JobRecord`, `JobRun` | store.rs:28; a row of `job_runs` (`0017_qtss_v2_scheduler.sql:50`), which `MemRun` (:259) has without the time and the worker |
| `JobStore`          | the two tables, and the lock of `MemoryJobStore` (:246) |
| `Selects`           | the row that `SELECT .. ORDER BY next_run_at LIMIT 1` (:153) or `position` (:323) picks; the database may pick any row of several with the least `next_run_at` |
| `leaseDue`          | :134 and :317, on the row that was picked |

Calls are atomic and every statement succeeds. `id` is the primary key, so the `UPDATE .. WHERE id` and
the write to `jobs[i]` change one row.

"A misconfigured row cannot wedge the whole scheduler", says `next_after`: it means cron rows. A row that
does not parse returns early, before `next_run_at` moves, and is picked again (`wedged`).
-/

namespace Qtss.Scheduler
open Runs

structure JobRecord where
  id : ℤ
  name : String
  scheduleKind : String
  scheduleExpr : String
  handler : String
  payload : String
  enabled : Bool
  timeoutS : ℤ
  maxRetries : ℤ
  nextRunAt : Instant
deriving DecidableEq

structure JobRun where
  id : ℤ
  jobId : ℤ
  startedAt : Instant
  status : String
  workerId : String
deriving DecidableEq

structure JobStore where
  jobs : List JobRecord
  nextRunId : ℤ
  runs : List JobRun
  /-- A panic while `MemoryJobStore` holds its lock. -/
  poisoned : Bool
  ids_nodup : (jobs.map (·.id)).Nodup

inductive StoreKind where
  | pg | memory
deriving DecidableEq

def JobRecord.Due (j : JobRecord) (now : Instant) : Prop := j.enabled = true ∧ j.nextRunAt ≤ now

instance (j : JobRecord) (now : Instant) : Decidable (j.Due now) :=
  inferInstanceAs (Decidable (_ ∧ _))

/-- `row` may be the one the store picks at `now`. -/
def Selects (jobs : List JobRecord) (now : Instant) : StoreKind → Option JobRecord → Prop
  | .memory, row => row = jobs.find? fun j => decide (j.Due now)
  | .pg, none => ∀ j ∈ jobs, ¬ j.Due now
  | .pg, some r => r ∈ jobs ∧ r.Due now ∧ ∀ j ∈ jobs, j.Due now → r.nextRunAt ≤ j.nextRunAt

instance (jobs : List JobRecord) (now : Instant) :
    ∀ (kind : StoreKind) (row : Option JobRecord), Decidable (Selects jobs now kind row)
  | .memory, row => inferInstanceAs (Decidable (row = _))
  | .pg, none => inferInstanceAs (Decidable (∀ j ∈ jobs, _))
  | .pg, some _ => inferInstanceAs (Decidable (_ ∧ _ ∧ ∀ j ∈ jobs, _))

def setNext (id : ℤ) (next : Instant) (j : JobRecord) : JobRecord :=
  if j.id = id then { j with nextRunAt := next } else j

/-- The time at which the row would be due again. -/
def JobRecord.nextRun (j : JobRecord) (now : Instant) : Except Failure Instant :=
  match Schedule.parse j.scheduleKind j.scheduleExpr with
  | .error e => .error e
  | .ok schedule => nextAfter schedule now

@[simp] theorem setNext_id (id : ℤ) (next : Instant) (j : JobRecord) : (setNext id next j).id = j.id := by
  unfold setNext
  split <;> rfl

/-- store.rs:170-207 and :328-341. -/
def leaseDue (kind : StoreKind) (row : Option JobRecord) (now : Instant) (workerId : String)
    (s : JobStore) : JobStore × Except Failure (Option (JobRecord × ℤ)) :=
  if s.poisoned then (s, .error .panic)
  else
    match row with
    | none => (s, .ok none)
    | some job =>
      match job.nextRun now with
      | .error e => ({ s with poisoned := decide (kind = .memory ∧ e = .panic) }, .error e)
      | .ok next =>
        let runId := s.nextRunId + 1
        ({ jobs := s.jobs.map (setNext job.id next)
           nextRunId := runId
           runs := s.runs ++ [⟨runId, job.id, now, "running", workerId⟩]
           poisoned := false
           ids_nodup := by
            have hids : (s.jobs.map (setNext job.id next)).map (·.id) = s.jobs.map (·.id) := by
              simp
            rw [hids]
            exact s.ids_nodup },
          .ok (some (job, runId)))

/-! ## A call -/

/-- A call of a worker, with the row the store picks for it. -/
structure Call where
  now : Instant
  workerId : String
  row : Option JobRecord

def step (kind : StoreKind) (s : JobStore) (c : Call) : JobStore :=
  (leaseDue kind c.row c.now c.workerId s).1

/-- The job the call leases. -/
def leased (kind : StoreKind) (s : JobStore) (c : Call) : Option JobRecord :=
  match (leaseDue kind c.row c.now c.workerId s).2 with
  | .ok (some (job, _)) => some job
  | _ => none

/-- The leases of a run, in the order of the calls, each with its time. -/
def leases (kind : StoreKind) : JobStore → List Call → List (JobRecord × Instant)
  | _, [] => []
  | s, c :: calls =>
    ((leased kind s c).map (·, c.now)).toList ++ leases kind (step kind s c) calls

variable {kind : StoreKind} {s : JobStore} {c : Call} {job : JobRecord} {now : Instant}
  {row : Option JobRecord} {workerId : String}

theorem selects_some (h : Selects s.jobs now kind (some job)) : job ∈ s.jobs ∧ job.Due now := by
  cases kind with
  | pg => exact ⟨h.1, h.2.1⟩
  | memory =>
    have hfind : s.jobs.find? (fun j => decide (j.Due now)) = some job := Eq.symm h
    exact ⟨List.mem_of_find?_eq_some hfind, by simpa using List.find?_some hfind⟩

theorem selects_none (h : Selects s.jobs now kind none) : ∀ j ∈ s.jobs, ¬ j.Due now := by
  cases kind with
  | pg => exact h
  | memory =>
    have hfind : s.jobs.find? (fun j => decide (j.Due now)) = none := Eq.symm h
    simpa using hfind

/-- The store picks a row whenever one is due. -/
theorem exists_selects (s : JobStore) (now : Instant) (kind : StoreKind)
    (h : ∃ j ∈ s.jobs, j.Due now) : ∃ row, Selects s.jobs now kind (some row) := by
  cases kind with
  | memory =>
    obtain ⟨j, hj, hdue⟩ := h
    have hsome : (s.jobs.find? fun j => decide (j.Due now)).isSome := by
      rw [List.find?_isSome]
      exact ⟨j, hj, decide_eq_true hdue⟩
    obtain ⟨row, hrow⟩ := Option.isSome_iff_exists.1 hsome
    exact ⟨row, hrow.symm⟩
  | pg =>
    obtain ⟨j, hj, hdue⟩ := h
    have hne : (s.jobs.filter fun j => decide (j.Due now)) ≠ [] := by
      intro hnil
      rw [List.filter_eq_nil_iff] at hnil
      exact hnil j hj (decide_eq_true hdue)
    obtain ⟨r, hr⟩ := Option.isSome_iff_exists.1
      (Option.ne_none_iff_isSome.1 fun hnone => hne (List.argmin_eq_none.1 hnone) :
        (List.argmin (·.nextRunAt) (s.jobs.filter fun j => decide (j.Due now))).isSome)
    obtain ⟨hmem, hrdue⟩ := List.mem_filter.1 (List.argmin_mem hr)
    refine ⟨r, hmem, of_decide_eq_true hrdue, ?_⟩
    intro k hk hkdue
    exact List.le_of_mem_argmin (List.mem_filter.2 ⟨hk, decide_eq_true hkdue⟩) hr

/-- **What a call does**: it leases the row and moves it on by its period, or leases nothing and moves
nothing. -/
theorem lease_cases (kind : StoreKind) (s : JobStore) (c : Call) :
    (leased kind s c = none ∧ (step kind s c).jobs = s.jobs)
    ∨ ∃ job schedule, c.row = some job ∧ leased kind s c = some job
      ∧ Schedule.parse job.scheduleKind job.scheduleExpr = .ok schedule
      ∧ (step kind s c).jobs = s.jobs.map (setNext job.id (c.now + schedule.period)) := by
  unfold leased step leaseDue
  by_cases hp : s.poisoned
  · left
    simp [hp]
  · rcases hrow : c.row with _ | job
    · left
      simp [hp]
    · rcases hnext : job.nextRun c.now with e | next
      · left
        simp [hp, hnext]
      · right
        have hrun := hnext
        unfold JobRecord.nextRun at hrun
        rcases hparse : Schedule.parse job.scheduleKind job.scheduleExpr with e | schedule
        · simp [hparse] at hrun
        · simp only [hparse] at hrun
          refine ⟨job, schedule, rfl, ?_, hparse, ?_⟩
          · simp [hp, hnext]
          · simp [hp, hnext, nextAfter_ok hrun]

/-! ## The spacing of the leases -/

/-- `next_run_at` never goes back: every later lease of a row is at or after it. -/
theorem leases_after (calls : List Call)
    (hsel : AllSteps (step kind) (fun s c => Selects s.jobs c.now kind c.row) s calls) :
    ∀ l ∈ leases kind s calls, ∀ j ∈ s.jobs, j.id = l.1.id → j.nextRunAt ≤ l.2 := by
  induction calls generalizing s with
  | nil => simp [leases]
  | cons c calls ih =>
    obtain ⟨hc, hcalls⟩ := hsel
    intro l hl j hj hid
    have hlater := ih hcalls l
    rw [leases, List.mem_append] at hl
    rcases lease_cases kind s c with ⟨hnone, hjobs⟩ | ⟨job, schedule, hrow, hsome, hparse, hjobs⟩
    · simp only [hnone, Option.map_none, Option.toList_none, List.not_mem_nil, false_or] at hl
      exact hlater hl j (hjobs ▸ hj) hid
    · rw [hrow] at hc
      obtain ⟨hmem, hdue⟩ := selects_some hc
      have hpos := period_pos hparse
      by_cases hjob : j.id = job.id
      · have hj' : j = job := List.inj_on_of_nodup_map s.ids_nodup hj hmem hjob
        rcases hl with hl | hl
        · simp only [hsome, Option.map_some, Option.toList_some, List.mem_singleton] at hl
          rw [hl, hj']
          exact hdue.2
        · have hnext := hlater hl (setNext job.id (c.now + schedule.period) j)
            (hjobs ▸ List.mem_map_of_mem hj) (by simpa using hid)
          rw [setNext, if_pos hjob] at hnext
          rw [hj']
          exact hdue.2.trans ((Int.le_add_of_nonneg_right hpos.le).trans hnext)
      · rcases hl with hl | hl
        · simp only [hsome, Option.map_some, Option.toList_some, List.mem_singleton] at hl
          rw [hl] at hid
          exact absurd hid hjob
        · have hnext := hlater hl (setNext job.id (c.now + schedule.period) j)
            (hjobs ▸ List.mem_map_of_mem hj) (by simpa using hid)
          rwa [setNext, if_neg hjob] at hnext

/-- Two leases of a job are its period apart. -/
def Spaced (a b : JobRecord × Instant) : Prop :=
  a.1.id = b.1.id → ∀ schedule, Schedule.parse a.1.scheduleKind a.1.scheduleExpr = .ok schedule →
    a.2 + schedule.period ≤ b.2

/-- **The spacing**, over any interleaving of the calls. -/
theorem leases_spaced (calls : List Call)
    (hsel : AllSteps (step kind) (fun s c => Selects s.jobs c.now kind c.row) s calls) :
    (leases kind s calls).Pairwise Spaced := by
  induction calls generalizing s with
  | nil => exact List.Pairwise.nil
  | cons c calls ih =>
    obtain ⟨hc, hcalls⟩ := hsel
    rw [leases, List.pairwise_append]
    refine ⟨?_, ih hcalls, ?_⟩
    · cases leased kind s c <;> simp
    · intro a ha b hb hid schedule hparse
      rcases lease_cases kind s c with ⟨hnone, -⟩ | ⟨job, schedule', hrow, hsome, hparse', hjobs⟩
      · simp [hnone] at ha
      · simp only [hsome, Option.map_some, Option.toList_some, List.mem_singleton] at ha
        subst ha
        rw [hrow] at hc
        obtain rfl : schedule' = schedule := by
          rw [hparse] at hparse'
          exact (Except.ok.inj hparse').symm
        have hnext := leases_after calls hcalls b hb
          (setNext job.id (c.now + schedule'.period) job)
          (hjobs ▸ List.mem_map_of_mem (selects_some hc).1) (by simpa using hid)
        rwa [setNext, if_pos rfl] at hnext

/-! ## Wedged -/

def JobRecord.Parses (j : JobRecord) : Prop :=
  (Schedule.parse j.scheduleKind j.scheduleExpr).isOk = true

instance (j : JobRecord) : Decidable j.Parses := inferInstanceAs (Decidable (_ = true))

/-- An enabled job whose schedule parses is due. -/
def JobStore.HasDue (s : JobStore) (now : Instant) : Prop := ∃ j ∈ s.jobs, j.Due now ∧ j.Parses

/-- If such a job is due, a call at `now` leases one. -/
def Serves (kind : StoreKind) (s : JobStore) (now : Instant) : Prop :=
  s.HasDue now → ∀ row workerId, Selects s.jobs now kind row →
    ∃ job runId, (leaseDue kind row now workerId s).2 = .ok (some (job, runId))
      ∧ job ∈ s.jobs ∧ job.Due now ∧ job.Parses

theorem parses_of_nextRun {next : Instant} (h : job.nextRun now = .ok next) : job.Parses := by
  unfold JobRecord.nextRun at h
  unfold JobRecord.Parses
  cases hparse : Schedule.parse job.scheduleKind job.scheduleExpr with
  | error e => simp [hparse] at h
  | ok schedule => rfl

theorem leaseDue_ok {job' : JobRecord} {runId : ℤ} :
    (leaseDue kind (some job) now workerId s).2 = .ok (some (job', runId)) ↔
      s.poisoned = false ∧ (job.nextRun now).isOk = true ∧ job' = job ∧ runId = s.nextRunId + 1 := by
  unfold leaseDue
  cases hp : s.poisoned with
  | true => simp
  | false =>
    rcases hnext : job.nextRun now with e | next
    · simp [hnext, Except.isOk, Except.toBool]
    · simp [hnext, Except.isOk, Except.toBool, eq_comm]

/-- One call: a job is leased exactly when whatever row the store may pick first has a next run. -/
theorem serves_iff (kind : StoreKind) (s : JobStore) (now : Instant) :
    Serves kind s now ↔ (s.HasDue now → s.poisoned = false
      ∧ ∀ row, Selects s.jobs now kind (some row) → (row.nextRun now).isOk = true) := by
  refine imp_congr_right fun hdue => ?_
  obtain ⟨j, hj, hjdue, -⟩ := hdue
  constructor
  · intro h
    have hrow : ∀ row, Selects s.jobs now kind (some row) →
        s.poisoned = false ∧ (row.nextRun now).isOk = true := by
      intro row hsel
      obtain ⟨job, runId, hok, -⟩ := h (some row) "" hsel
      obtain ⟨hp, hnext, -⟩ := leaseDue_ok.1 hok
      exact ⟨hp, hnext⟩
    obtain ⟨row, hsel⟩ := exists_selects s now kind ⟨j, hj, hjdue⟩
    exact ⟨(hrow row hsel).1, fun row hsel => (hrow row hsel).2⟩
  · rintro ⟨hp, hall⟩ row workerId hsel
    rcases row with _ | job
    · exact absurd hjdue (selects_none hsel j hj)
    · obtain ⟨hmem, hjobdue⟩ := selects_some hsel
      have hnext := hall job hsel
      refine ⟨job, s.nextRunId + 1, leaseDue_ok.2 ⟨hp, hnext, rfl, rfl⟩, hmem, hjobdue, ?_⟩
      cases hrun : job.nextRun now with
      | error e => simp [hrun, Except.isOk, Except.toBool] at hnext
      | ok next => exact parses_of_nextRun hrun

/-- **The wedge**: the memory store never leases anything again once its first due row does not
parse, whatever the calls. -/
theorem wedged {r : JobRecord} {e : Failure} (calls : List Call)
    (hparse : Schedule.parse r.scheduleKind r.scheduleExpr = .error e)
    (hlater : ∀ c ∈ calls, now ≤ c.now) (hbefore : ∃ before after, s.jobs = before ++ r :: after
      ∧ (∀ j ∈ before, j.enabled = false) ∧ r.Due now)
    (hsel : AllSteps (step .memory) (fun s c => Selects s.jobs c.now .memory c.row) s calls) :
    leases .memory s calls = [] ∧ (run (step .memory) s calls).jobs = s.jobs := by
  induction calls generalizing s with
  | nil => exact ⟨rfl, rfl⟩
  | cons c calls ih =>
    obtain ⟨hc, hcalls⟩ := hsel
    obtain ⟨hnow, hlater⟩ := List.forall_mem_cons.1 hlater
    obtain ⟨before, after, hjobs, hnever, hdue⟩ := hbefore
    have hrow : c.row = some r := by
      have hdue' : r.Due c.now := ⟨hdue.1, hdue.2.trans hnow⟩
      have hnone : before.find? (fun j => decide (j.Due c.now)) = none := by
        rw [List.find?_eq_none]
        intro j hj
        simp [JobRecord.Due, hnever j hj]
      have hfind : c.row = s.jobs.find? fun j => decide (j.Due c.now) := hc
      rw [hfind, hjobs, List.find?_append, hnone, Option.none_or]
      simp [hdue']
    rcases lease_cases .memory s c with ⟨hnone, hsame⟩ | ⟨job, schedule, hjob, -, hok, -⟩
    · obtain ⟨hleases, hrun⟩ := ih hlater ⟨before, after, hsame.trans hjobs, hnever, hdue⟩ hcalls
      rw [leases, hnone, hleases, run_cons, hrun, hsame]
      exact ⟨rfl, rfl⟩
    · rw [hrow] at hjob
      obtain rfl := Option.some.inj hjob
      rw [hparse] at hok
      cases hok

/-- **The law of `lease_due`**: leases of a job are always its period apart; a due job is served
exactly when the row picked first has a next run. -/
theorem leaseDue_law (kind : StoreKind) :
    (∀ s now, Serves kind s now ↔ (s.HasDue now → s.poisoned = false
      ∧ ∀ row, Selects s.jobs now kind (some row) → (row.nextRun now).isOk = true))
    ∧ ∀ s calls, AllSteps (step kind) (fun s c => Selects s.jobs c.now kind c.row) s calls →
      (leases kind s calls).Pairwise Spaced :=
  ⟨serves_iff kind, fun _ calls hsel => leases_spaced calls hsel⟩

def misconfigured : JobRecord :=
  ⟨1, "old", "interval", "12x", "noop", "", true, 60, 3, 0⟩

def healthy : JobRecord :=
  ⟨2, "pull", "interval", "30s", "nansen.pull", "", true, 60, 3, 5⟩

def twoJobs : JobStore := ⟨[misconfigured, healthy], 0, [], false, by decide⟩

theorem misconfigured_parse : Schedule.parse "interval" "12x" =
    .error (.error (.invalidSchedule "unknown unit 'x' (use s|m|h|d)")) := by
  decide +kernel

theorem healthy_parse : Schedule.parse "interval" "30s" = .ok (.interval (30 * second)) := by
  decide +kernel

/-- Either store picks the misconfigured row first, and the healthy one is not served. -/
theorem misconfigured_wedges : twoJobs.HasDue 10
    ∧ ¬ Serves .pg twoJobs 10 ∧ ¬ Serves .memory twoJobs 10 := by
  have hdue : twoJobs.HasDue 10 := by
    refine ⟨healthy, by simp [twoJobs], by decide, ?_⟩
    rw [JobRecord.Parses, healthy, healthy_parse]
    rfl
  have hfail : ∀ kind, Selects twoJobs.jobs 10 kind (some misconfigured) →
      ¬ Serves kind twoJobs 10 := by
    intro kind hsel h
    have hnext := ((serves_iff kind twoJobs 10).1 h hdue).2 misconfigured hsel
    rw [JobRecord.nextRun, misconfigured, misconfigured_parse] at hnext
    cases hnext
  exact ⟨hdue, hfail .pg (by decide), hfail .memory (by decide)⟩

end Qtss.Scheduler
