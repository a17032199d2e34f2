import Mathlib.Data.List.Nodup
import Qtss.Domain.Commission
/-
# The copy-trade queue's table (`qtss-storage/src/copy_trade_jobs.rs`)

| here | there |
| --- | --- |
| `CopyTradeJob`   | `CopyTradeJobRow` (copy_trade_jobs.rs:11), without the times; the rows are in `created_at` order |
| `Payload`        | `payload.get("intent")` and what `serde_json` makes of it; an error keeps its text |
| `tryEnqueue`, `claimNextPending`, `mark` | :37, :58, and `mark_done`, `mark_skipped`, `mark_failed` (:90-125) |

The table's `UNIQUE (subscription_id, leader_exchange_order_id)` is `jobKey`; a row gets the next unused id.
-/

namespace Qtss.Storage

inductive JobStatus where
  | pending | processing | done | skipped | failed
deriving DecidableEq, Repr

inductive Payload where
  | missing
  | malformed (error : String)
  | intent (i : V1.OrderIntent)

structure CopyTradeJob where
  id : Uuid
  subscriptionId : Uuid
  leaderExchangeOrderId : Uuid
  followerUserId : Uuid
  leaderUserId : Uuid
  payload : Payload
  status : JobStatus
  error : Option String

def CopyTradeJob.jobKey (job : CopyTradeJob) : Uuid × Uuid := (job.subscriptionId, job.leaderExchangeOrderId)

abbrev JobTable := List CopyTradeJob

namespace JobTable

/-- `ON CONFLICT (subscription_id, leader_exchange_order_id) DO NOTHING`. -/
def tryEnqueue (t : JobTable) (subscriptionId leaderExchangeOrderId followerUserId leaderUserId : Uuid)
    (payload : Payload) : JobTable × Bool :=
  if (subscriptionId, leaderExchangeOrderId) ∈ t.map (·.jobKey) then (t, false)
  else
    (t ++ [⟨t.length, subscriptionId, leaderExchangeOrderId, followerUserId, leaderUserId, payload, .pending,
      none⟩], true)

/-- `UPDATE … SET status = …, error = … WHERE id = $1`. -/
def mark (t : JobTable) (id : Uuid) (status : JobStatus) (error : Option String) : JobTable :=
  t.map fun job => if job.id = id then { job with status := status, error := error } else job

/-- copy_trade_jobs.rs:58: the oldest pending row, now `processing`, and the table. -/
def claimNextPending (t : JobTable) : Option (CopyTradeJob × JobTable) :=
  match t.find? fun job => job.status = .pending with
  | none => none
  | some job => some ({ job with status := .processing }, t.mark job.id .processing job.error)

/-- Ids and keys are unique, and an id is an earlier length of the table. -/
structure WellFormed (t : JobTable) : Prop where
  ids : (t.map (·.id)).Nodup
  keys : (t.map (·.jobKey)).Nodup
  below : ∀ job ∈ t, job.id < t.length

variable {t t' : JobTable} {job row : CopyTradeJob} {id : Uuid} {status : JobStatus} {error : Option String}
  {sub leader follower user : Uuid} {payload : Payload}

theorem mem_mark : row ∈ t.mark id status error ↔
    (row ∈ t ∧ row.id ≠ id) ∨ ∃ old ∈ t, old.id = id ∧ row = { old with status := status, error := error } := by
  simp only [mark, List.mem_map]
  constructor
  · rintro ⟨old, hold, rfl⟩
    by_cases hid : old.id = id
    · rw [if_pos hid]; exact .inr ⟨old, hold, hid, rfl⟩
    · rw [if_neg hid]; exact .inl ⟨hold, hid⟩
  · rintro (⟨hrow, hid⟩ | ⟨old, hold, hid, rfl⟩)
    · exact ⟨row, hrow, if_neg hid⟩
    · exact ⟨old, hold, if_pos hid⟩

theorem map_mark {β : Type} {f : CopyTradeJob → β}
    (hf : ∀ job : CopyTradeJob, f { job with status := status, error := error } = f job) :
    (t.mark id status error).map f = t.map f := by
  rw [mark, List.map_map]
  refine List.map_congr_left fun job _ => ?_
  simp only [Function.comp_apply]
  split
  · exact hf job
  · rfl

theorem WellFormed.mark (h : t.WellFormed) : (t.mark id status error).WellFormed where
  ids := by rw [map_mark fun _ => rfl]; exact h.ids
  keys := by rw [map_mark fun _ => rfl]; exact h.keys
  below row hrow := by
    rw [JobTable.mark, List.length_map]
    rcases mem_mark.1 hrow with ⟨hmem, -⟩ | ⟨old, hmem, -, rfl⟩
    · exact h.below row hmem
    · exact h.below old hmem

/-- The two outcomes of an enqueue. -/
theorem tryEnqueue_cases : (t.tryEnqueue sub leader follower user payload).1 = t ∨
    (sub, leader) ∉ t.map (·.jobKey) ∧ (t.tryEnqueue sub leader follower user payload).1 =
      t ++ [⟨t.length, sub, leader, follower, user, payload, .pending, none⟩] := by
  unfold tryEnqueue
  split
  · exact .inl rfl
  · rename_i hnew; exact .inr ⟨hnew, rfl⟩

theorem WellFormed.append (h : t.WellFormed) (hid : job.id = t.length) (hkey : job.jobKey ∉ t.map (·.jobKey)) :
    WellFormed (t ++ [job]) where
  ids := by
    rw [List.map_append, List.map_singleton, List.nodup_append_comm, List.singleton_append, List.nodup_cons]
    refine ⟨fun hmem => ?_, h.ids⟩
    obtain ⟨row, hrow, heq⟩ := List.mem_map.1 hmem
    exact (h.below row hrow).ne (heq.trans hid)
  keys := by
    rw [List.map_append, List.map_singleton, List.nodup_append_comm, List.singleton_append, List.nodup_cons]
    exact ⟨hkey, h.keys⟩
  below row hrow := by
    rw [List.length_append, List.length_singleton]
    rcases List.mem_append.1 hrow with hmem | hmem
    · exact Nat.lt_succ_of_lt (h.below row hmem)
    · rw [List.mem_singleton.1 hmem, hid]; exact Nat.lt_succ_self _

theorem claimNextPending_eq_some (h : t.claimNextPending = some (job, t')) : ∃ old ∈ t,
    old.status = .pending ∧ job = { old with status := .processing }
      ∧ t' = t.mark old.id .processing old.error := by
  unfold claimNextPending at h
  split at h
  · cases h
  · rename_i old hfind
    obtain ⟨rfl, rfl⟩ := Prod.mk.inj (Option.some.inj h)
    exact ⟨old, List.mem_of_find?_eq_some hfind, by simpa using List.find?_some hfind, rfl, rfl⟩

theorem WellFormed.eq_of_id (h : t.WellFormed) (hjob : job ∈ t) (hrow : row ∈ t) (hid : job.id = row.id) :
    job = row := List.inj_on_of_nodup_map h.ids hjob hrow hid

theorem WellFormed.eq_of_key (h : t.WellFormed) (hjob : job ∈ t) (hrow : row ∈ t)
    (hkey : job.jobKey = row.jobKey) : job = row := List.inj_on_of_nodup_map h.keys hjob hrow hkey

end JobTable
end Qtss.Storage
