import Mathlib.Algebra.Order.Field.Rat
import Mathlib.Data.List.Sort
import Qtss.Lib.Keyed
import Qtss.Risk.LivePositionStore
/-
# The queue of selected candidates (`qtss-storage/src/selected_candidates.rs`)

| here | there |
| --- | --- |
| `CandidateStatus`       | the `status` CHECK of migration 0150 |
| `Candidate`, `SelectedCandidateRow` | the columns that are read here, and the row with its `id` (:44) |
| `CandidateTable`        | the table: one row for each `id` |
| `insert`, `claimPending` | :66, :102 |
| `markPlaced`, `markErrored` | :141, :153 |

"Lifecycle: 'pending' → execution worker picks up; 'claimed' while dispatched; 'placed' after broker ack;
'rejected' on risk veto; 'errored' on unexpected failure." Nothing leads back to `pending`, and
`claim_pending` takes nothing else: whatever is claimed is claimed once (`status_of_claimed`).
-/

namespace Qtss.Storage
open Keyed

inductive CandidateStatus where
  | pending | claimed | placed | rejected | errored
deriving DecidableEq, Repr

/-- The JSON `tp_ladder` as its readers see it: the price of the first entry, and the legs if it is a
ladder. -/
structure TpLadder where
  firstPrice : Option ℚ
  legs : Option (List Risk.TpLeg)
deriving DecidableEq

structure InsertSelectedCandidate where
  setupId : Uuid
  exchange : String
  symbol : String
  timeframe : String
  direction : String
  entryPrice : ℚ
  slPrice : ℚ
  tpLadder : TpLadder
  riskPct : ℚ
  mode : String
  /-- `selector_meta.venue_class`. -/
  venueClass : Option String
deriving DecidableEq

structure Candidate extends InsertSelectedCandidate where
  status : CandidateStatus
  attempts : ℕ
  lastError : Option String
  createdAt : DateTime
  claimedAt : Option DateTime
  placedAt : Option DateTime
deriving DecidableEq

structure SelectedCandidateRow extends Candidate where
  id : ℕ
deriving DecidableEq

abbrev CandidateTable := HashMap ℕ Candidate

namespace CandidateTable

/-- `ON CONFLICT (setup_id, mode) DO NOTHING`; an `id` that is taken violates the primary key. -/
def insert (t : CandidateTable) (id : ℕ) (c : InsertSelectedCandidate) (now : DateTime) : CandidateTable :=
  if (values t).any (fun r => r.setupId == c.setupId && r.mode == c.mode) || (t.lookup id).isSome then t
  else AList.insert id { c with
    status := .pending, attempts := 0, lastError := none, createdAt := now, claimedAt := none,
    placedAt := none } t

/-- The ids of at most `limit` pending rows that no other transaction has locked, oldest first. -/
def picked (t : CandidateTable) (locked : ℕ → Bool) (limit : ℕ) : List ℕ :=
  ((t.entries.filter fun e => e.2.status == .pending && !locked e.1).insertionSort
    fun e e' => e.2.createdAt ≤ e'.2.createdAt).take limit |>.map (·.1)

def claimed (now : DateTime) (c : Candidate) : Candidate :=
  { c with status := .claimed, claimedAt := some now, attempts := c.attempts + 1 }

/-- selected_candidates.rs:102: the table, and the rows `RETURNING` hands back. -/
def claimPending (t : CandidateTable) (locked : ℕ → Bool) (limit : ℕ) (now : DateTime) :
    CandidateTable × List SelectedCandidateRow :=
  let ids := t.picked locked limit
  let t := ids.foldl (fun t id => adjust (claimed now) id t) t
  (t, ids.filterMap fun id => (t.lookup id).map fun c => { c with id := id })

/-- selected_candidates.rs:141. -/
def markPlaced (t : CandidateTable) (id : ℕ) (now : DateTime) : CandidateTable :=
  adjust (fun c => { c with status := .placed, placedAt := some now, lastError := none }) id t

/-- selected_candidates.rs:153. -/
def markErrored (t : CandidateTable) (id : ℕ) (err : String) : CandidateTable :=
  adjust (fun c => { c with status := .errored, lastError := some err }) id t

/-! ## What the writes leave alone -/

variable {t : CandidateTable} {locked : ℕ → Bool} {limit id : ℕ} {now : DateTime}
  {c c' : Candidate} {row : SelectedCandidateRow}

/-- `c'` is a later version of the row `c`. -/
structure Later (c c' : Candidate) : Prop where
  setupId : c'.setupId = c.setupId
  mode : c'.mode = c.mode
  pending : c'.status = .pending → c.status = .pending

theorem Later.refl (c : Candidate) : Later c c := ⟨rfl, rfl, id⟩

/-- Every row of `t` is still there in `t'`. -/
def Extends (t t' : CandidateTable) : Prop :=
  ∀ id c, t.lookup id = some c → ∃ c', t'.lookup id = some c' ∧ Later c c'

theorem Extends.refl (t : CandidateTable) : t.Extends t := fun _ c h => ⟨c, h, .refl c⟩

theorem extends_adjust {f : Candidate → Candidate} (hf : ∀ c, Later c (f c)) :
    t.Extends (adjust f id t) := by
  intro j c h
  rw [lookup_adjust, h]
  split
  · exact ⟨f c, rfl, hf c⟩
  · exact ⟨c, rfl, .refl c⟩

theorem extends_markPlaced : t.Extends (t.markPlaced id now) :=
  extends_adjust fun _ => ⟨rfl, rfl, nofun⟩

theorem extends_markErrored {err : String} : t.Extends (t.markErrored id err) :=
  extends_adjust fun _ => ⟨rfl, rfl, nofun⟩

theorem extends_insert {i : InsertSelectedCandidate} : t.Extends (t.insert id i now) := by
  unfold insert
  split
  · exact .refl t
  · rename_i hnew
    have hfree : t.lookup id = none := by simp_all
    intro j c h
    have hj : j ≠ id := by
      rintro rfl
      simp [hfree] at h
    exact ⟨c, by simp [hj, h], .refl c⟩

/-! ## Claiming -/

theorem mem_picked : id ∈ t.picked locked limit →
    ∃ c, t.lookup id = some c ∧ c.status = .pending ∧ locked id = false := by
  intro h
  obtain ⟨⟨j, c⟩, he, rfl⟩ := List.mem_map.1 h
  have he := (List.perm_insertionSort _ _).mem_iff.1 (List.mem_of_mem_take he)
  simp only [List.mem_filter, Bool.and_eq_true, beq_iff_eq, Bool.not_eq_eq_eq_not, Bool.not_true] at he
  exact ⟨c, AList.mem_lookup_iff.2 he.1, he.2⟩

theorem nodup_picked (t : CandidateTable) (locked : ℕ → Bool) (limit : ℕ) :
    (t.picked locked limit).Nodup := by
  have hkeys : (t.entries.map (·.1)).Nodup := t.keys_nodup
  have hsub : ((t.entries.filter fun e => e.2.status == .pending && !locked e.1).map (·.1)).Nodup :=
    hkeys.sublist (List.filter_sublist.map _)
  have hsorted := ((List.perm_insertionSort (fun e e' : (_ : ℕ) × Candidate =>
    e.2.createdAt ≤ e'.2.createdAt) _).map (·.1)).nodup_iff.2 hsub
  exact hsorted.sublist ((List.take_sublist _ _).map _)

theorem lookup_claimPending :
    (t.claimPending locked limit now).1.lookup id =
      if id ∈ t.picked locked limit then (t.lookup id).map (claimed now) else t.lookup id :=
  lookup_foldl_adjust_of_nodup id (nodup_picked t locked limit) t

theorem extends_claimPending : t.Extends (t.claimPending locked limit now).1 := by
  intro j c h
  rw [lookup_claimPending, h]
  split
  · exact ⟨claimed now c, rfl, rfl, rfl, nofun⟩
  · exact ⟨c, rfl, .refl c⟩

theorem mem_claimPending : row ∈ (t.claimPending locked limit now).2 ↔
    row.id ∈ t.picked locked limit ∧
      (t.claimPending locked limit now).1.lookup row.id = some row.toCandidate := by
  unfold claimPending
  simp only [List.mem_filterMap, Option.map_eq_some_iff]
  constructor
  · rintro ⟨j, hj, c, hc, rfl⟩
    exact ⟨hj, hc⟩
  · rintro ⟨hid, hc⟩
    exact ⟨row.id, hid, row.toCandidate, hc, rfl⟩

/-- **Whatever is claimed was pending and is claimed now.** -/
theorem status_of_claimed (h : row ∈ (t.claimPending locked limit now).2) :
    (∃ c, t.lookup row.id = some c ∧ c.status = .pending) ∧ row.status = .claimed := by
  obtain ⟨hid, hrow⟩ := mem_claimPending.1 h
  obtain ⟨c, hc, hpending, -⟩ := mem_picked hid
  rw [lookup_claimPending, if_pos hid, hc] at hrow
  exact ⟨⟨c, hc, hpending⟩, by rw [← Option.some.inj hrow]; rfl⟩

variable (t locked limit now) in
theorem ids_claimPending :
    ((t.claimPending locked limit now).2.map (·.id)).Sublist (t.picked locked limit) := by
  unfold claimPending
  simp only
  generalize t.picked locked limit = ids
  generalize ids.foldl (fun t id => adjust (claimed now) id t) t = t'
  induction ids with
  | nil => simp
  | cons id ids ih =>
    cases h : t'.lookup id with
    | none => simpa [h] using ih.cons id
    | some c => simpa [h] using ih.cons_cons id

/-! ## Which rows are placed -/

variable {j : ℕ} {i : InsertSelectedCandidate} {err : String}

theorem placed_of_insert (h : (t.insert id i now).lookup j = some c) (hc : c.status = .placed) :
    t.lookup j = some c := by
  unfold insert at h
  split at h
  · exact h
  · rw [lookup_insert_eq] at h
    split at h
    · cases Option.some.inj h
      exact absurd hc nofun
    · exact h

theorem placed_of_claimPending (h : (t.claimPending locked limit now).1.lookup j = some c)
    (hc : c.status = .placed) : t.lookup j = some c := by
  rw [lookup_claimPending] at h
  split at h
  · obtain ⟨c', -, rfl⟩ := Option.map_eq_some_iff.1 h
    exact absurd hc nofun
  · exact h

theorem placed_of_markErrored (h : (t.markErrored id err).lookup j = some c) (hc : c.status = .placed) :
    t.lookup j = some c := by
  rw [markErrored, lookup_adjust] at h
  split at h
  · obtain ⟨c', -, rfl⟩ := Option.map_eq_some_iff.1 h
    exact absurd hc nofun
  · exact h

/-- Only the row that is marked becomes placed. -/
theorem placed_of_markPlaced (h : (t.markPlaced id now).lookup j = some c) :
    t.lookup j = some c ∨ ∃ c', t.lookup id = some c' ∧ c.setupId = c'.setupId ∧ c.mode = c'.mode := by
  rw [markPlaced, lookup_adjust] at h
  split at h
  · rename_i hj
    obtain ⟨c', hc', rfl⟩ := Option.map_eq_some_iff.1 h
    exact .inr ⟨c', hj ▸ hc', rfl, rfl⟩
  · exact .inl h

variable (now) in
theorem lookup_markPlaced (h : t.lookup id = some c) : ∃ c', (t.markPlaced id now).lookup id = some c' ∧
    c'.setupId = c.setupId ∧ c'.mode = c.mode ∧ c'.status = .placed := by
  rw [markPlaced, lookup_adjust, if_pos rfl, h]
  exact ⟨_, rfl, rfl, rfl, rfl⟩

end CandidateTable
end Qtss.Storage
