import Qtss.Lib.Runs
import Qtss.Storage.CopyTradeJobs
import Qtss.Strategy.CopyTrade
/-
# The copy-trade queue (`qtss-worker/src/copy_trade_queue.rs`)

Leader fills become jobs, and any number of workers claim a job, place its order and write the outcome back, each
a step of its own.

| here | there |
| --- | --- |
| `symbolAllowed`, `followerIntent`, `enqueueFromFills` | copy_trade_queue.rs:75, :109-116, :87 |
| `disposition` | the arms of `process_jobs` (:157-213): what is placed and what is to be written |
| `Phase`       | how far a worker is with its job |
| `Queue`, `step` | the table, the workers and the orders placed; a step of a worker or of the enqueuing loop |

A claim is committed before the order is placed and the outcome is written after it, so an order goes out at most
once (`placed_at_most_once`). Nothing looks for jobs that were left in between: see `queue_sound_iff`.
-/

namespace Qtss.Worker
open Runs Storage Strategy

/-! ## From fills to jobs -/

structure CopySubscription where
  id : Uuid
  leaderUserId : Uuid
  followerUserId : Uuid
  /-- `none` where the JSON is not a `CopyRule`. -/
  rule : Option CopyRule

/-- A leader's filled order; `intent` is `none` where its JSON does not parse. -/
structure LeaderOrder where
  id : Uuid
  userId : Uuid
  symbol : String
  intent : Option V1.OrderIntent

def symbolAllowed (normalize : String → String) (rule : CopyRule) (sym : String) : Bool :=
  let u := normalize sym
  if u = "" then false
  else if rule.symbolAllowlist.isEmpty then true
  else rule.symbolAllowlist.any (normalize · == u)

/-- The follower's order: the leader's with the quantity times the multiplier (:109-116). -/
def followerIntent (requiresHumanApproval : Bool) (rule : CopyRule) (leaderIntent : V1.OrderIntent) :
    Option V1.OrderIntent :=
  let qty := leaderIntent.quantity * rule.sizeMultiplier
  if qty ≤ 0 then none
  else some { leaderIntent with quantity := qty, requiresHumanApproval := requiresHumanApproval }

def enqueueOne (normalize : String → String) (requiresHumanApproval : Bool) (o : LeaderOrder) (t : JobTable)
    (s : CopySubscription) : JobTable :=
  match s.rule with
  | none => t
  | some rule =>
    if !symbolAllowed normalize rule o.symbol then t
    else
      match o.intent.bind (followerIntent requiresHumanApproval rule) with
      | none => t
      | some intent => (t.tryEnqueue s.id o.id s.followerUserId s.leaderUserId (.intent intent)).1

/-- copy_trade_queue.rs:87. -/
def enqueueFromFills (normalize : String → String) (requiresHumanApproval : Bool)
    (subs : List CopySubscription) (orders : List LeaderOrder) (t : JobTable) : JobTable :=
  orders.foldl (fun t o =>
    (subs.filter (·.leaderUserId = o.userId)).foldl (enqueueOne normalize requiresHumanApproval o) t) t

/-! ## From jobs to orders -/

/-- What `process_jobs` finds around it, and what the gateway answers. -/
structure ProcessEnv where
  autoPlace : Bool
  gateway : Bool
  tradingHalted : Bool
  place : Except String Uuid

structure Disposition where
  placed : Option V1.OrderIntent
  status : JobStatus
  error : Option String

/-- copy_trade_queue.rs:157-213. -/
def disposition (env : ProcessEnv) (payload : Payload) : Disposition :=
  match payload with
  | .missing => ⟨none, .failed, some "payload missing intent field"⟩
  | .malformed e => ⟨none, .failed, some ("intent json: " ++ e)⟩
  | .intent intent =>
    if !env.autoPlace then ⟨none, .skipped, some "QTSS_COPY_TRADE_QUEUE_AUTO_PLACE off"⟩
    else if !env.gateway then ⟨none, .skipped, some "no execution gateway"⟩
    else if env.tradingHalted then ⟨none, .skipped, some "trading halted (kill switch)"⟩
    else
      match env.place with
      | .ok _ => ⟨some intent, .done, none⟩
      | .error e => ⟨none, .failed, some e⟩

inductive Phase where
  | idle
  | claimed (job : CopyTradeJob)
  | marking (id : Uuid) (status : JobStatus) (error : Option String)

/-- The job a worker is at. -/
def Phase.holds : Phase → Option Uuid
  | .idle => none
  | .claimed job => some job.id
  | .marking id _ _ => some id

/-- An order that went out, and the job it is for. -/
structure Placement where
  subscriptionId : Uuid
  leaderExchangeOrderId : Uuid
  intent : V1.OrderIntent

def Placement.jobKey (p : Placement) : Uuid × Uuid := (p.subscriptionId, p.leaderExchangeOrderId)

structure Queue where
  jobs : JobTable
  workers : ℕ → Phase
  placed : List Placement

def Queue.start : Queue := ⟨[], fun _ => .idle, []⟩

inductive QueueOp where
  | enqueue (subscriptionId leaderExchangeOrderId followerUserId leaderUserId : Uuid) (payload : Payload)
  | claim (w : ℕ) (ok : Bool)
  | process (w : ℕ) (env : ProcessEnv)
  | mark (w : ℕ) (ok : Bool)
  | crash (w : ℕ)

namespace Queue

/-- Worker `w` goes on to `phase`. -/
def setWorker (s : Queue) (w : ℕ) (phase : Phase) : Queue :=
  { s with workers := Function.update s.workers w phase }

/-- A failed claim or status update is logged and nothing else. -/
def step (s : Queue) : QueueOp → Queue
  | .enqueue sub order follower leader payload =>
    { s with jobs := (s.jobs.tryEnqueue sub order follower leader payload).1 }
  | .claim w ok =>
    match s.workers w, ok with
    | .idle, true =>
      match s.jobs.claimNextPending with
      | none => s
      | some (job, jobs) => { s with jobs := jobs }.setWorker w (.claimed job)
    | _, _ => s
  | .process w env =>
    match s.workers w with
    | .claimed job =>
      let d := disposition env job.payload
      { s with placed := s.placed ++ (d.placed.map (Placement.mk job.subscriptionId
          job.leaderExchangeOrderId)).toList }.setWorker w (.marking job.id d.status d.error)
    | _ => s
  | .mark w ok =>
    match s.workers w with
    | .marking id status error =>
      (if ok then { s with jobs := s.jobs.mark id status error } else s).setWorker w .idle
    | _ => s
  | .crash w => s.setWorker w .idle

/-! ## What a step does -/

variable {s : Queue} {op : QueueOp} {w w' : ℕ} {id : Uuid} {phase : Phase} {row job : CopyTradeJob}

@[simp] theorem setWorker_workers :
    (s.setWorker w phase).workers w' = if w' = w then phase else s.workers w' := by
  simp only [setWorker, Function.update_apply]

/-- A worker at something is not the one that was just freed. -/
theorem of_setWorker_idle (h : (s.setWorker w .idle).workers w' = phase) (hphase : phase ≠ .idle) :
    w' ≠ w ∧ s.workers w' = phase := by
  rw [setWorker_workers] at h
  split at h
  · exact absurd h.symm hphase
  · rename_i hne
    exact ⟨hne, h⟩

theorem of_holds_setWorker_idle (h : ((s.setWorker w .idle).workers w').holds = some id) :
    w' ≠ w ∧ (s.workers w').holds = some id := by
  obtain ⟨hne, hw'⟩ := of_setWorker_idle rfl fun hidle => by rw [hidle] at h; cases h
  exact ⟨hne, by rwa [hw']⟩

@[simp] theorem setWorker_jobs : (s.setWorker w phase).jobs = s.jobs := rfl

@[simp] theorem setWorker_placed : (s.setWorker w phase).placed = s.placed := rfl

/-- A job is added, claimed, processed, marked or let go of; anything else changes nothing. -/
inductive Change (s : Queue) : QueueOp → Queue → Prop where
  | none {op : QueueOp} : Change s op s
  | enqueued {sub order follower leader : Uuid} {payload : Payload} (job : CopyTradeJob) (hid : job.id = s.jobs.length)
      (hkey : job.jobKey ∉ s.jobs.map (·.jobKey)) (hstatus : job.status = .pending) :
      Change s (.enqueue sub order follower leader payload) { s with jobs := s.jobs ++ [job] }
  | claimed {w : ℕ} (old : CopyTradeJob) (hidle : s.workers w = .idle) (hold : old ∈ s.jobs)
      (hstatus : old.status = .pending) :
      Change s (.claim w true) ({ s with jobs := s.jobs.mark old.id .processing old.error }.setWorker w
        (.claimed { old with status := .processing }))
  | processed {w : ℕ} {env : ProcessEnv} (job : CopyTradeJob) (placed : List Placement) (hw : s.workers w = .claimed job)
      (hplaced : placed = [] ∨ ∃ p, placed = [p] ∧ p.jobKey = job.jobKey) :
      Change s (.process w env) ({ s with placed := s.placed ++ placed }.setWorker w
        (.marking job.id (disposition env job.payload).status (disposition env job.payload).error))
  | marked {w : ℕ} (id : Uuid) (status : JobStatus) (error : Option String)
      (hw : s.workers w = .marking id status error) :
      Change s (.mark w true) ({ s with jobs := s.jobs.mark id status error }.setWorker w .idle)
  | lost {w : ℕ} (id : Uuid) (status : JobStatus) (error : Option String)
      (hw : s.workers w = .marking id status error) : Change s (.mark w false) (s.setWorker w .idle)
  | crashed {w : ℕ} : Change s (.crash w) (s.setWorker w .idle)

theorem change_step (s : Queue) (op : QueueOp) : Change s op (s.step op) := by
  cases op with
  | enqueue sub order follower leader payload =>
    have hcases : (s.jobs.tryEnqueue sub order follower leader payload).1 = s.jobs ∨ _ := JobTable.tryEnqueue_cases
    rcases hcases with h | ⟨hnew, h⟩
    · simp only [step, h]; exact .none
    · simp only [step, h]; exact .enqueued _ rfl hnew rfl
  | claim w ok =>
    simp only [step]
    split
    · rename_i hidle
      split
      · exact .none
      · rename_i job jobs hclaim
        obtain ⟨old, hold, hstatus, rfl, rfl⟩ := JobTable.claimNextPending_eq_some hclaim
        exact .claimed old hidle hold hstatus
    · exact .none
  | process w env =>
    simp only [step]
    split
    · rename_i job hw
      refine .processed job _ hw ?_
      cases (disposition env job.payload).placed with
      | none => exact .inl rfl
      | some intent => exact .inr ⟨_, rfl, rfl⟩
    · exact .none
  | mark w ok =>
    simp only [step]
    split
    · rename_i id status error hw
      cases ok with
      | true => exact .marked id status error hw
      | false => exact .lost id status error hw
    · exact .none
  | crash w => exact .crashed

/-! ## At most once -/

structure Inv (s : Queue) : Prop where
  table : s.jobs.WellFormed
  claimed : ∀ w job, s.workers w = .claimed job → job ∈ s.jobs
  marking : ∀ w id status error, s.workers w = .marking id status error →
    status ≠ .pending ∧ status ≠ .processing
  /-- A job that a worker is at is `processing`, -/
  held : ∀ w id, (s.workers w).holds = some id → ∃ row ∈ s.jobs, row.id = id ∧ row.status = .processing
  /-- and no other worker is at it. -/
  exclusive : ∀ w w' id, (s.workers w).holds = some id → (s.workers w').holds = some id → w = w'
  placedOnce : (s.placed.map (·.jobKey)).Nodup
  placedRow : ∀ p ∈ s.placed, ∃ row ∈ s.jobs, row.jobKey = p.jobKey ∧ row.status ≠ .pending
  placedFree : ∀ p ∈ s.placed, ∀ w job, s.workers w = .claimed job → job.jobKey ≠ p.jobKey

theorem disposition_final (env : ProcessEnv) (payload : Payload) :
    (disposition env payload).status ≠ .pending ∧ (disposition env payload).status ≠ .processing := by
  unfold disposition
  split
  · exact ⟨nofun, nofun⟩
  · exact ⟨nofun, nofun⟩
  · (repeat' split) <;> exact ⟨nofun, nofun⟩

/-- The row a worker is at. -/
theorem Inv.row_of_holds (h : s.Inv) (hw : (s.workers w).holds = some id) (hrow : row ∈ s.jobs)
    (hid : row.id = id) : row.status = .processing := by
  obtain ⟨held, hheld, hid', hstatus⟩ := h.held w id hw
  rwa [h.table.eq_of_id hrow hheld (hid.trans hid'.symm)]

/-- A worker that lets go of its job. -/
theorem Inv.setWorker_idle (h : s.Inv) (w : ℕ) : (s.setWorker w .idle).Inv where
  table := h.table
  claimed w' job hw' := h.claimed w' job (of_setWorker_idle hw' nofun).2
  marking w' id status error hw' := h.marking w' id status error (of_setWorker_idle hw' nofun).2
  held w' id hw' := h.held w' id (of_holds_setWorker_idle hw').2
  exclusive w₁ w₂ id h₁ h₂ :=
    h.exclusive w₁ w₂ id (of_holds_setWorker_idle h₁).2 (of_holds_setWorker_idle h₂).2
  placedOnce := h.placedOnce
  placedRow := h.placedRow
  placedFree p hp w' job hw' := h.placedFree p hp w' job (of_setWorker_idle hw' nofun).2

theorem Inv.enqueued (h : s.Inv) (hid : job.id = s.jobs.length)
    (hkey : job.jobKey ∉ s.jobs.map (·.jobKey)) : Inv { s with jobs := s.jobs ++ [job] } where
  table := h.table.append hid hkey
  claimed w job' hw := List.mem_append_left _ (h.claimed w job' hw)
  marking := h.marking
  held w id hw := by
    obtain ⟨row, hrow, hrest⟩ := h.held w id hw
    exact ⟨row, List.mem_append_left _ hrow, hrest⟩
  exclusive := h.exclusive
  placedOnce := h.placedOnce
  placedRow p hp := by
    obtain ⟨row, hrow, hrest⟩ := h.placedRow p hp
    exact ⟨row, List.mem_append_left _ hrow, hrest⟩
  placedFree := h.placedFree

/-- The claimed row was pending: no worker is at it, and its order has not been placed. -/
theorem Inv.claimed_step (h : s.Inv) (hold : job ∈ s.jobs) (hstatus : job.status = .pending) :
    Inv ({ s with jobs := s.jobs.mark job.id .processing job.error }.setWorker w
      (.claimed { job with status := .processing })) := by
  have hnotheld : ∀ w', (s.workers w').holds ≠ some job.id := by
    intro w' hw'
    have := h.row_of_holds hw' hold rfl
    rw [hstatus] at this
    cases this
  have hclaimed : { job with status := .processing } ∈ s.jobs.mark job.id .processing job.error :=
    JobTable.mem_mark.2 (.inr ⟨job, hold, rfl, rfl⟩)
  have hkeep : ∀ row ∈ s.jobs, row.id ≠ job.id → row ∈ s.jobs.mark job.id .processing job.error :=
    fun row hrow hid => JobTable.mem_mark.2 (.inl ⟨hrow, hid⟩)
  constructor
  · exact h.table.mark
  · intro w' job' hw'
    rw [setWorker_workers] at hw'
    split at hw'
    · obtain rfl := Phase.claimed.inj hw'; exact hclaimed
    · exact hkeep job' (h.claimed w' job' hw') fun hid => hnotheld w' (by rw [hw', ← hid]; rfl)
  · intro w' id status error hw'
    rw [setWorker_workers] at hw'
    split at hw'
    · cases hw'
    · exact h.marking w' id status error hw'
  · intro w' id hw'
    rw [setWorker_workers] at hw'
    split at hw'
    · obtain rfl := Option.some.inj hw'; exact ⟨_, hclaimed, rfl, rfl⟩
    · obtain ⟨row, hrow, rfl, hst⟩ := h.held w' id hw'
      exact ⟨row, hkeep row hrow fun hid => hnotheld w' (hid ▸ hw'), rfl, hst⟩
  · intro w₁ w₂ id h₁ h₂
    rw [setWorker_workers] at h₁ h₂
    split at h₁
    · rename_i hw₁
      obtain rfl := Option.some.inj h₁
      split at h₂
      · rename_i hw₂; rw [hw₁, hw₂]
      · exact absurd h₂ (hnotheld w₂)
    · split at h₂
      · obtain rfl := Option.some.inj h₂; exact absurd h₁ (hnotheld w₁)
      · exact h.exclusive w₁ w₂ id h₁ h₂
  · exact h.placedOnce
  · intro p hp
    obtain ⟨row, hrow, hkey, hst⟩ := h.placedRow p hp
    refine ⟨row, hkeep row hrow fun hid => ?_, hkey, hst⟩
    rw [h.table.eq_of_id hrow hold hid] at hst
    exact hst hstatus
  · intro p hp w' job' hw'
    rw [setWorker_workers] at hw'
    split at hw'
    · obtain rfl := Phase.claimed.inj hw'
      intro hkey
      obtain ⟨row, hrow, hrkey, hst⟩ := h.placedRow p hp
      rw [h.table.eq_of_key hrow hold (hrkey.trans hkey.symm)] at hst
      exact hst hstatus
    · exact h.placedFree p hp w' job' hw'

/-- The worker moves on from `claimed`, and its order may have gone out. -/
theorem Inv.processed_step (h : s.Inv) {placed : List Placement} {env : ProcessEnv}
    (hw : s.workers w = .claimed job) (hplaced : placed = [] ∨ ∃ p, placed = [p] ∧ p.jobKey = job.jobKey) :
    Inv ({ s with placed := s.placed ++ placed }.setWorker w
      (.marking job.id (disposition env job.payload).status (disposition env job.payload).error)) := by
  have hholds : (s.workers w).holds = some job.id := by rw [hw]; rfl
  have hsame : ∀ w' id, ((if w' = w then Phase.marking job.id (disposition env job.payload).status
      (disposition env job.payload).error else s.workers w').holds = some id) →
      (s.workers w').holds = some id := by
    intro w' id hw'
    split at hw'
    · rename_i heq; rw [heq, hholds]; exact hw'
    · exact hw'
  -- a placement of this step is the first for its key
  have hnew : ∀ p ∈ placed, p.jobKey = job.jobKey := by
    rcases hplaced with rfl | ⟨p, rfl, hp⟩
    · simp
    · intro p' hp'; rw [List.mem_singleton.1 hp', hp]
  constructor
  · exact h.table
  · intro w' job' hw'
    rw [setWorker_workers] at hw'
    split at hw'
    · cases hw'
    · exact h.claimed w' job' hw'
  · intro w' id status error hw'
    rw [setWorker_workers] at hw'
    split at hw'
    · obtain ⟨-, rfl, -⟩ := Phase.marking.inj hw'; exact disposition_final env job.payload
    · exact h.marking w' id status error hw'
  · intro w' id hw'
    rw [setWorker_workers] at hw'
    exact h.held w' id (hsame w' id hw')
  · intro w₁ w₂ id h₁ h₂
    rw [setWorker_workers] at h₁ h₂
    exact h.exclusive w₁ w₂ id (hsame w₁ id h₁) (hsame w₂ id h₂)
  · rw [setWorker_placed, List.map_append]
    rcases hplaced with rfl | ⟨p, rfl, hp⟩
    · simpa using h.placedOnce
    · rw [List.map_singleton, List.nodup_append_comm, List.singleton_append, List.nodup_cons]
      refine ⟨fun hmem => ?_, h.placedOnce⟩
      obtain ⟨p', hp', heq⟩ := List.mem_map.1 hmem
      exact h.placedFree p' hp' w job hw (hp.symm.trans heq.symm)
  · intro p hp
    rcases List.mem_append.1 hp with hp | hp
    · exact h.placedRow p hp
    · have hrow := h.claimed w job hw
      refine ⟨job, hrow, (hnew p hp).symm, ?_⟩
      rw [h.row_of_holds hholds hrow rfl]
      exact nofun
  · intro p hp w' job' hw'
    rw [setWorker_workers] at hw'
    split at hw'
    · cases hw'
    · rename_i hne
      rcases List.mem_append.1 hp with hp | hp
      · exact h.placedFree p hp w' job' hw'
      · intro hkey
        have heq := h.table.eq_of_key (h.claimed w' job' hw') (h.claimed w job hw) (hkey.trans (hnew p hp))
        exact hne (h.exclusive w' w job.id (by rw [hw', heq]; rfl) hholds)

/-- The outcome is written, and the worker is free. -/
theorem Inv.marked_step (h : s.Inv) {status : JobStatus} {error : Option String}
    (hw : s.workers w = .marking id status error) :
    Inv ({ s with jobs := s.jobs.mark id status error }.setWorker w .idle) := by
  have hholds : (s.workers w).holds = some id := by rw [hw]; rfl
  obtain ⟨hpending, -⟩ := h.marking w id status error hw
  have hkeep : ∀ row ∈ s.jobs, row.id ≠ id → row ∈ s.jobs.mark id status error :=
    fun row hrow hid => JobTable.mem_mark.2 (.inl ⟨hrow, hid⟩)
  have hother : ∀ w' id', w' ≠ w → (s.workers w').holds = some id' → id' ≠ id := by
    intro w' id' hne hw' heq
    exact hne (h.exclusive w' w id (heq ▸ hw') hholds)
  constructor
  · exact h.table.mark
  · intro w' job hw'
    obtain ⟨hne, hw'⟩ := of_setWorker_idle hw' nofun
    exact hkeep job (h.claimed w' job hw') (hother w' job.id hne (by rw [hw']; rfl))
  · exact (h.setWorker_idle w).marking
  · intro w' id' hw'
    obtain ⟨hne, hw'⟩ := of_holds_setWorker_idle hw'
    obtain ⟨row, hrow, rfl, hst⟩ := h.held w' id' hw'
    exact ⟨row, hkeep row hrow (hother w' row.id hne hw'), rfl, hst⟩
  · exact (h.setWorker_idle w).exclusive
  · exact h.placedOnce
  · intro p hp
    obtain ⟨row, hrow, hkey, hst⟩ := h.placedRow p hp
    by_cases hid : row.id = id
    · exact ⟨_, JobTable.mem_mark.2 (.inr ⟨row, hrow, hid, rfl⟩), hkey, hpending⟩
    · exact ⟨row, hkeep row hrow hid, hkey, hst⟩
  · exact (h.setWorker_idle w).placedFree

theorem inv_step (h : s.Inv) (op : QueueOp) : (s.step op).Inv := by
  have hchange := change_step s op
  generalize s.step op = t at hchange ⊢
  cases hchange with
  | none => exact h
  | enqueued job hid hkey _ => exact h.enqueued hid hkey
  | claimed old _ hold hstatus => exact h.claimed_step hold hstatus
  | processed job placed hw hplaced => exact h.processed_step hw hplaced
  | marked id status error hw => exact h.marked_step hw
  | lost | crashed => exact h.setWorker_idle _

theorem inv_start : start.Inv where
  table := ⟨by simp [start], by simp [start], by simp [start]⟩
  claimed _ _ hw := by simp [start] at hw
  marking _ _ _ _ hw := by simp [start] at hw
  held _ _ hw := by simp [start, Phase.holds] at hw
  exclusive _ _ _ hw := by simp [start, Phase.holds] at hw
  placedOnce := by simp [start]
  placedRow := by simp [start]
  placedFree := by simp [start]

theorem inv_run (ops : List QueueOp) : (run step start ops).Inv :=
  run_invariant (J := Inv) (K := fun _ => True) (fun _ op h _ => inv_step h op) inv_start fun _ _ => trivial

/-- **At most once**: whatever fails or crashes, no job's order goes out twice. -/
theorem placed_at_most_once (ops : List QueueOp) : ((run step start ops).placed.map (·.jobKey)).Nodup :=
  (inv_run ops).placedOnce

/-! ## Never stuck -/

/-- Some continuation takes the job out of `processing`. -/
def Movable (s : Queue) (id : Uuid) : Prop :=
  ∃ ops, ∀ row ∈ (run step s ops).jobs, row.id = id → row.status ≠ .processing

/-- Every job is pending, in a final status, or can still be moved. -/
def NeverStuck (s : Queue) : Prop := ∀ row ∈ s.jobs, row.status = .processing → s.Movable row.id

/-- A job that is `processing` and that no worker is at. -/
structure Orphan (s : Queue) (id : Uuid) : Prop where
  row : ∃ row ∈ s.jobs, row.id = id ∧ row.status = .processing
  free : ∀ w, (s.workers w).holds ≠ some id

theorem movable_of_marking {status : JobStatus} {error : Option String} (h : s.Inv)
    (hw : s.workers w = .marking id status error) : s.Movable id := by
  refine ⟨[.mark w true], fun row hrow hid => ?_⟩
  simp only [run_cons, run_nil, step, hw, if_true, setWorker_jobs] at hrow
  rcases JobTable.mem_mark.1 hrow with ⟨-, hne⟩ | ⟨old, -, -, rfl⟩
  · exact absurd hid hne
  · exact (h.marking w id status error hw).2

/-- A job that a worker is at is two steps from a final status. -/
theorem movable_of_holds (h : s.Inv) (hw : (s.workers w).holds = some id) : s.Movable id := by
  cases hphase : s.workers w with
  | idle => rw [hphase] at hw; cases hw
  | marking id' status error =>
    rw [hphase] at hw
    obtain rfl := Option.some.inj hw
    exact movable_of_marking h hphase
  | claimed job =>
    rw [hphase] at hw
    obtain rfl := Option.some.inj hw
    let env : ProcessEnv := ⟨true, true, true, .ok 0⟩
    have hmarking : (s.step (.process w env)).workers w =
        .marking job.id (disposition env job.payload).status (disposition env job.payload).error := by
      simp only [step, hphase, setWorker_workers, if_true]
    obtain ⟨ops, hops⟩ := movable_of_marking (inv_step h _) hmarking
    exact ⟨.process w env :: ops, hops⟩

/-- Nobody comes back for an orphan. -/
theorem orphan_step (h : s.Inv) (ho : s.Orphan id) (op : QueueOp) : (s.step op).Orphan id := by
  obtain ⟨⟨row, hrow, hid, hstatus⟩, hfree⟩ := ho
  have hchange := change_step s op
  generalize s.step op = t at hchange ⊢
  have hidle : ∀ (q : Queue) w, (∀ w', (q.workers w').holds ≠ some id) →
      ∀ w', ((q.setWorker w .idle).workers w').holds ≠ some id :=
    fun q w hq w' hw' => hq w' (of_holds_setWorker_idle hw').2
  cases hchange with
  | none => exact ⟨⟨row, hrow, hid, hstatus⟩, hfree⟩
  | enqueued job => exact ⟨⟨row, List.mem_append_left _ hrow, hid, hstatus⟩, hfree⟩
  | @claimed w old _ hold hpending =>
    -- the claimed row is pending, the orphan is not
    have hne : row.id ≠ old.id := by
      intro heq
      rw [h.table.eq_of_id hrow hold heq, hpending] at hstatus
      cases hstatus
    refine ⟨⟨row, JobTable.mem_mark.2 (.inl ⟨hrow, hne⟩), hid, hstatus⟩, fun w' => ?_⟩
    rw [setWorker_workers]
    split
    · exact fun heq => hne (hid.trans (Option.some.inj heq).symm)
    · exact hfree w'
  | @processed w env job placed hw =>
    refine ⟨⟨row, hrow, hid, hstatus⟩, fun w' => ?_⟩
    rw [setWorker_workers]
    split
    · intro heq
      exact hfree w (by rw [hw]; exact heq)
    · exact hfree w'
  | @marked w id' status error hw =>
    have hne : row.id ≠ id' := fun heq => hfree w (by rw [hw, ← hid, heq]; rfl)
    exact ⟨⟨row, JobTable.mem_mark.2 (.inl ⟨hrow, hne⟩), hid, hstatus⟩, hidle _ w hfree⟩
  | lost | crashed => exact ⟨⟨row, hrow, hid, hstatus⟩, hidle _ _ hfree⟩

theorem not_movable_of_orphan (h : s.Inv) (ho : s.Orphan id) : ¬ s.Movable id := by
  rintro ⟨ops, hops⟩
  have hrun : (run step s ops).Inv ∧ (run step s ops).Orphan id :=
    run_invariant (J := fun s : Queue => s.Inv ∧ s.Orphan id) (K := fun _ => True)
      (fun _ op h _ => ⟨inv_step h.1 op, orphan_step h.1 h.2 op⟩) ⟨h, ho⟩ fun _ _ => trivial
  obtain ⟨row, hrow, hid, hstatus⟩ := hrun.2.row
  exact hops row hrow hid hstatus

/-- Nothing is stuck exactly when every `processing` job has a worker at it. -/
theorem neverStuck_iff (h : s.Inv) : s.NeverStuck ↔ ∀ id, ¬ s.Orphan id := by
  constructor
  · rintro hmove id ho
    obtain ⟨row, hrow, rfl, hstatus⟩ := ho.row
    exact not_movable_of_orphan h ho (hmove row hrow hstatus)
  · intro hnone row hrow hstatus
    by_contra hstuck
    refine hnone row.id ⟨⟨row, hrow, rfl, hstatus⟩, fun w hw => ?_⟩
    exact hstuck (movable_of_holds h hw)

/-- The step condition: no worker crashes with a job in hand, and no status update of one fails. -/
def KeepsHold (s : Queue) : QueueOp → Prop
  | .crash w => (s.workers w).holds = none
  | .mark w false => (s.workers w).holds = none ∨ ∃ job, s.workers w = .claimed job
  | _ => True

/-- What the queue owes: one order a job at most, and no job out of reach. -/
structure Sound (s : Queue) : Prop where
  atMostOnce : (s.placed.map (·.jobKey)).Nodup
  neverStuck : s.NeverStuck

/-- A worker that lets go of its job leaves an orphan. -/
theorem orphan_of_dropped (h : s.Inv) (hw : (s.workers w).holds = some id) :
    (s.setWorker w .idle).Orphan id where
  row := h.held w id hw
  free w' hw' := by
    obtain ⟨hne, hw'⟩ := of_holds_setWorker_idle hw'
    exact hne (h.exclusive w' w id hw' hw)

/-- A step that keeps its job in hand makes no orphan. -/
theorem no_orphan_step (h : s.Inv) (hnone : ∀ id, ¬ s.Orphan id) (hkeep : s.KeepsHold op) :
    ∀ id, ¬ (s.step op).Orphan id := by
  rintro id ⟨⟨row, hrow, hid, hstatus⟩, hfree⟩
  have hchange := change_step s op
  generalize s.step op = t at hchange hrow hfree
  -- a worker that was at the job still is
  have hback : ∀ (q : Queue) w phase, ((s.workers w).holds = some id → phase.holds = some id) →
      (∀ w', ((q.setWorker w phase).workers w').holds ≠ some id) → q.workers = s.workers →
      ∀ w', (s.workers w').holds ≠ some id := by
    intro q w phase hphase hfree hsame w' hw'
    have := hfree w'
    rw [setWorker_workers] at this
    split at this
    · rename_i heq; exact this (hphase (heq ▸ hw'))
    · exact this (hsame ▸ hw')
  cases hchange with
  | none => exact hnone id ⟨⟨row, hrow, hid, hstatus⟩, hfree⟩
  | enqueued job _ _ hpending =>
    rcases List.mem_append.1 hrow with hrow | hrow
    · exact hnone id ⟨⟨row, hrow, hid, hstatus⟩, hfree⟩
    · rw [List.mem_singleton.1 hrow, hpending] at hstatus
      cases hstatus
  | @claimed w old hidle =>
    rcases JobTable.mem_mark.1 hrow with ⟨hrow, -⟩ | ⟨row', -, hid', rfl⟩
    · refine hnone id ⟨⟨row, hrow, hid, hstatus⟩, hback _ w _ (fun hw => ?_) hfree rfl⟩
      rw [hidle] at hw
      cases hw
    · refine hfree w ?_
      rw [setWorker_workers, if_pos rfl, ← hid]
      exact congrArg some hid'.symm
  | @processed w env job placed hw =>
    refine hnone id ⟨⟨row, hrow, hid, hstatus⟩, hback _ w _ (fun hheld => ?_) hfree rfl⟩
    rw [hw] at hheld
    exact hheld
  | @marked w id' status error hw =>
    rcases JobTable.mem_mark.1 hrow with ⟨hrow, hne⟩ | ⟨row', -, -, rfl⟩
    · refine hnone id ⟨⟨row, hrow, hid, hstatus⟩, hback _ w _ (fun hheld => ?_) hfree rfl⟩
      rw [hw] at hheld
      exact absurd (hid.trans (Option.some.inj hheld).symm) hne
    · exact (h.marking w id' _ _ hw).2 hstatus
  | @lost w id' status error hw =>
    rcases hkeep with hnohold | ⟨job, hclaimed⟩
    · rw [hw] at hnohold; cases hnohold
    · rw [hw] at hclaimed; cases hclaimed
  | @crashed w =>
    refine hnone id ⟨⟨row, hrow, hid, hstatus⟩, hback _ w _ (fun hheld => ?_) hfree rfl⟩
    rw [show (s.workers w).holds = none from hkeep] at hheld
    cases hheld

theorem orphan_of_not_keepsHold (h : s.Inv) (hkeep : ¬ s.KeepsHold op) : ∃ id, (s.step op).Orphan id := by
  cases op with
  | enqueue | claim | process => exact absurd trivial hkeep
  | crash w =>
    obtain ⟨id, hw⟩ := Option.ne_none_iff_exists'.1 hkeep
    exact ⟨id, orphan_of_dropped h hw⟩
  | mark w ok =>
    cases ok with
    | true => exact absurd trivial hkeep
    | false =>
      cases hphase : s.workers w with
      | idle => exact absurd (.inl (by rw [hphase]; rfl)) hkeep
      | claimed job => exact absurd (.inr ⟨job, hphase⟩) hkeep
      | marking id status error =>
        have hdrop : s.step (.mark w false) = s.setWorker w .idle := by simp [step, hphase]
        exact ⟨id, hdrop ▸ orphan_of_dropped h (by rw [hphase]; rfl)⟩

/-- **The queue**: in every state of a run each order goes out at most once and no job is out of reach, exactly
when no worker crashes with a job in hand and no status update of a job in hand fails. -/
theorem queue_sound_iff (ops : List QueueOp) :
    AllStates step Sound start ops ↔ AllSteps step KeepsHold start ops := by
  refine allStates_iff_allSteps (J := fun s : Queue => s.Inv ∧ ∀ id, ¬ s.Orphan id) (K := fun _ => True)
    (fun s h => ⟨h.1.placedOnce, (neverStuck_iff h.1).2 h.2⟩)
    (fun s op h _ hkeep => ⟨inv_step h.1 op, no_orphan_step h.1 h.2 hkeep⟩) (fun s op h _ hkeep hsound => ?_)
    ⟨inv_start, fun id ho => ?_⟩ fun _ _ => trivial
  · obtain ⟨id, ho⟩ := orphan_of_not_keepsHold h.1 hkeep
    exact (neverStuck_iff (inv_step h.1 op)).1 hsound.neverStuck id ho
  · obtain ⟨row, hrow, -⟩ := ho.row
    cases hrow

theorem not_sound_of_crash (h : s.Inv) (hw : (s.workers w).holds = some id) : ¬ Sound (s.step (.crash w)) :=
  fun hsound => (neverStuck_iff (inv_step h _)).1 hsound.neverStuck id (orphan_of_dropped h hw)

/-- The follower's share of what the leader bought. -/
def buyOne : V1.OrderIntent := ⟨⟨.binance, .spot, "BTCUSDT"⟩, .buy, 1, .market, false⟩

/-- Worker 0 claims the job of subscription 7 and crashes: the job stays `processing` whatever happens next. -/
theorem crashed_job_is_stuck :
    ¬ Sound (run step start ([.enqueue 7 8 2 1 (.intent buyOne), .claim 0 true] ++ [.crash 0])) := by
  rw [run_append, run_cons, run_nil]
  apply not_sound_of_crash (inv_run _)
  simp [step, start, JobTable.tryEnqueue, JobTable.claimNextPending, Phase.holds]
  rfl

end Queue
end Qtss.Worker
