import Qtss.Lib.Runs
import Qtss.Storage.SelectedCandidates
import Qtss.Storage.SetupLifecycle
/-
# The selector loop (`qtss-worker/src/selector_loop.rs`)

A tick reads the open setups, newest first, and enqueues a dry candidate for those that have none.

| here | there |
| --- | --- |
| `V2SetupRow`      | the columns of v2_setups.rs:17 that are read here |
| `listOpen`        | `list_open_v2_setups(pool, None, None)` (v2_setups.rs:279) |
| `acceptable`      | the `filter` of selector_loop.rs:77 |
| `buildCandidate`  | :116 |
| `existingSetupIds` | selected_candidates.rs:175 |
| `selectorTick`    | `run_tick` (:68), with every statement succeeding |

"Drop the ones that already have a row in `selected_candidates`", and then the survivors are enqueued. But the
`take(batch)` comes before the drop: what the tick looks at are the `batch` newest open setups with an entry and a
stop, and those may all have a row, or be neutral. `selector_iff` says when a tick enqueues a setup that waits, and
which setups are ever enqueued.
-/

namespace Qtss.Worker
open Storage Keyed Runs

/-- A `real` column; `none` is what `Decimal::from_f32_retain` refuses (NaN, an infinity, out of range). -/
abbrev Real32 := Option ℚ

def decimalFromF32 (v : Real32) : Option ℚ := v

structure V2SetupRow where
  id : Uuid
  createdAt : DateTime
  venueClass : String
  exchange : String
  symbol : String
  timeframe : String
  state : SetupStateKind
  direction : String
  entryPrice : Option Real32
  entrySl : Option Real32
  targetRef : Option Real32
  riskPct : Option Real32
deriving DecidableEq

/-! ## The tick -/

/-- `WHERE state IN ('armed','active') … ORDER BY created_at DESC`. -/
def listOpen (setups : List V2SetupRow) : List V2SetupRow :=
  (setups.filter fun s => s.state == .armed || s.state == .active).insertionSort
    fun s s' => s'.createdAt ≤ s.createdAt

def V2SetupRow.acceptable (s : V2SetupRow) : Bool :=
  (s.state == .armed || s.state == .active) && s.entryPrice.isSome && s.entrySl.isSome

/-- "single leg at `target_ref`". -/
def ladderTo : Option Real32 → Option TpLadder
  | some t => (decimalFromF32 t).map fun tp => ⟨some tp, some [⟨tp, 1, 0⟩]⟩
  | none => some ⟨none, some []⟩

/-- "neutral never placed". -/
def placedDirection : String → Option String
  | "long" => some "long"
  | "short" => some "short"
  | _ => none

/-- selector_loop.rs:116. -/
def buildCandidate (s : V2SetupRow) : Option InsertSelectedCandidate := do
  let entry ← decimalFromF32 (← s.entryPrice)
  let sl ← decimalFromF32 (← s.entrySl)
  let tpLadder ← ladderTo s.targetRef
  let riskPct := (s.riskPct.bind decimalFromF32).getD (1 / 100)
  let direction ← placedDirection s.direction
  return {
    setupId := s.id, exchange := s.exchange, symbol := s.symbol, timeframe := s.timeframe,
    direction := direction, entryPrice := entry, slPrice := sl, tpLadder := tpLadder, riskPct := riskPct,
    mode := "dry", venueClass := some s.venueClass }

/-- There is a candidate of the setup in that mode. -/
def HasCandidate (t : CandidateTable) (setupId : Uuid) (mode : String) : Prop :=
  ∃ c ∈ values t, c.setupId = setupId ∧ c.mode = mode

instance (t : CandidateTable) (setupId : Uuid) (mode : String) : Decidable (HasCandidate t setupId mode) :=
  inferInstanceAs (Decidable (∃ c ∈ values t, c.setupId = setupId ∧ c.mode = mode))

/-- `WHERE setup_id = ANY($1) AND mode = $2`. -/
def existingSetupIds (t : CandidateTable) (ids : List Uuid) (mode : String) : List Uuid :=
  ids.filter fun id => HasCandidate t id mode

/-- What the sequence of the `BIGSERIAL` gives next: an `id` that no row has. -/
def nextId (t : CandidateTable) : ℕ := t.keys.foldr max 0 + 1

/-- `insert_selected_candidate`. -/
def enqueue (now : DateTime) (t : CandidateTable) (c : InsertSelectedCandidate) : CandidateTable :=
  t.insert (nextId t) c now

/-- The setups that a tick looks at. -/
def window (batch : ℕ) (setups : List V2SetupRow) : List V2SetupRow :=
  ((listOpen setups).filter (·.acceptable)).take batch

/-- selector_loop.rs:68. -/
def selectorTick (batch : ℕ) (now : DateTime) (setups : List V2SetupRow) (t : CandidateTable) : CandidateTable :=
  let armed := window batch setups
  let existing := existingSetupIds t (armed.map (·.id)) "dry"
  ((armed.filter fun s => !existing.contains s.id).filterMap buildCandidate).foldl (enqueue now) t

structure SelectorState where
  setups : List V2SetupRow
  candidates : CandidateTable

inductive SelectorOp where
  | tick (batch : ℕ) (now : DateTime)
  /-- Setups are opened, moved on and closed by others. -/
  | setups (setups : List V2SetupRow)
  /-- The bridge claims candidates and marks them. -/
  | claim (locked : ℕ → Bool) (limit : ℕ) (now : DateTime)
  | markPlaced (id : ℕ) (now : DateTime)
  | markErrored (id : ℕ) (err : String)

def selectorStep (s : SelectorState) : SelectorOp → SelectorState
  | .tick batch now => { s with candidates := selectorTick batch now s.setups s.candidates }
  | .setups setups => { s with setups := setups }
  | .claim locked limit now => { s with candidates := (s.candidates.claimPending locked limit now).1 }
  | .markPlaced id now => { s with candidates := s.candidates.markPlaced id now }
  | .markErrored id err => { s with candidates := s.candidates.markErrored id err }

/-! ## Who waits -/

/-- An armed or active setup with an entry, a stop and a direction. -/
def Eligible (s : V2SetupRow) : Prop :=
  s.acceptable = true ∧ (s.direction = "long" ∨ s.direction = "short")

instance : DecidablePred Eligible := fun _ => inferInstanceAs (Decidable (_ ∧ _))

/-- It has no dry candidate yet. -/
def Waits (t : CandidateTable) (s : V2SetupRow) : Prop := Eligible s ∧ ¬ HasCandidate t s.id "dry"

instance (t : CandidateTable) : DecidablePred (Waits t) := fun _ => inferInstanceAs (Decidable (_ ∧ _))

/-- If a setup waits, the step of a tick enqueues one that does. -/
def Progresses (s : SelectorState) : SelectorOp → Prop
  | .tick batch now => (∃ x ∈ s.setups, Waits s.candidates x) →
      ∃ x ∈ s.setups, Waits s.candidates x ∧ HasCandidate (selectorTick batch now s.setups s.candidates) x.id "dry"
  | _ => True

/-- If a setup waits, one whose numbers are readable does so among the newest `batch` of those with an entry and a
stop. -/
def InBatch (s : SelectorState) : SelectorOp → Prop
  | .tick batch _ => (∃ x ∈ s.setups, Waits s.candidates x) →
      ∃ x ∈ window batch s.setups, Waits s.candidates x ∧ (buildCandidate x).isSome
  | _ => True

/-! ## One tick -/

variable {batch : ℕ} {now : DateTime} {setups : List V2SetupRow} {t : CandidateTable} {x : V2SetupRow}
  {c : InsertSelectedCandidate} {id : Uuid}

theorem mem_window (h : x ∈ window batch setups) : x ∈ setups ∧ x.acceptable = true := by
  have hacc := List.mem_filter.1 (List.mem_of_mem_take h)
  have hopen := (List.perm_insertionSort _ _).mem_iff.1 hacc.1
  exact ⟨List.mem_of_mem_filter hopen, hacc.2⟩

theorem nextId_fresh (t : CandidateTable) : t.lookup (nextId t) = none := by
  rw [← Option.not_isSome_iff_eq_none, AList.lookup_isSome, AList.mem_keys]
  have hle : ∀ (ks : List ℕ), ∀ k ∈ ks, k ≤ ks.foldr max 0 := by
    intro ks
    induction ks with
    | nil => simp
    | cons k ks ih =>
      intro j hj
      rcases List.mem_cons.1 hj with rfl | hj
      · exact le_max_left _ _
      · exact (ih j hj).trans (le_max_right _ _)
  intro hmem
  have := hle t.keys (nextId t) hmem
  unfold nextId at this
  omega

/-- An insert leaves a candidate of the setup, new or old. -/
theorem hasCandidate_enqueue : HasCandidate (enqueue now t c) id "dry" ↔
    HasCandidate t id "dry" ∨ c.setupId = id ∧ c.mode = "dry" := by
  unfold enqueue CandidateTable.insert HasCandidate
  simp only [nextId_fresh, Option.isSome_none, Bool.or_false, List.any_eq_true, Bool.and_eq_true, beq_iff_eq]
  split
  next htaken =>
    refine ⟨.inl, fun h => h.elim (fun hold => hold) fun ⟨hid, hmode⟩ => ?_⟩
    obtain ⟨r, hr, hrid, hrmode⟩ := htaken
    exact ⟨r, hr, hrid.trans hid, hrmode.trans hmode⟩
  next =>
    have hfree := nextId_fresh t
    simp only [mem_values_iff, lookup_insert_eq]
    constructor
    · rintro ⟨c', ⟨k, hk⟩, hid, hmode⟩
      split at hk
      next =>
        obtain rfl := Option.some.inj hk
        exact .inr ⟨hid, hmode⟩
      next => exact .inl ⟨c', ⟨k, hk⟩, hid, hmode⟩
    · rintro (⟨c', ⟨k, hk⟩, hid, hmode⟩ | ⟨hid, hmode⟩)
      · refine ⟨c', ⟨k, ?_⟩, hid, hmode⟩
        rw [if_neg, hk]
        rintro rfl
        rw [hfree] at hk
        cases hk
      · exact ⟨_, ⟨nextId t, if_pos rfl⟩, hid, hmode⟩

theorem hasCandidate_foldl_enqueue {cs : List InsertSelectedCandidate} :
    HasCandidate (cs.foldl (enqueue now) t) id "dry" ↔
      HasCandidate t id "dry" ∨ ∃ c ∈ cs, c.setupId = id ∧ c.mode = "dry" := by
  induction cs generalizing t with
  | nil => simp
  | cons c cs ih => simp [ih, hasCandidate_enqueue, or_assoc]

/-- What is built is a dry candidate of the setup, long or short. -/
theorem buildCandidate_eq_some (h : buildCandidate x = some c) :
    c.setupId = x.id ∧ c.mode = "dry" ∧ (x.direction = "long" ∨ x.direction = "short") := by
  unfold buildCandidate at h
  simp only [Option.bind_eq_bind, Option.bind_eq_some_iff] at h
  obtain ⟨_, -, entry, -, _, -, sl, -, ladder, -, direction, hdir, h⟩ := h
  obtain rfl := Option.some.inj h
  refine ⟨rfl, rfl, ?_⟩
  unfold placedDirection at hdir
  split at hdir
  next hlong => exact .inl hlong
  next hshort => exact .inr hshort
  next => cases hdir

/-- **A tick** gives a candidate to every setup of its window that can have one. -/
theorem hasCandidate_selectorTick : HasCandidate (selectorTick batch now setups t) id "dry" ↔
    HasCandidate t id "dry" ∨ ∃ y ∈ window batch setups, y.id = id ∧ (buildCandidate y).isSome := by
  unfold selectorTick
  simp only [hasCandidate_foldl_enqueue, List.mem_filterMap, List.mem_filter]
  by_cases hhas : HasCandidate t id "dry"
  · simp [hhas]
  · simp only [hhas, false_or]
    constructor
    · rintro ⟨c, ⟨y, ⟨hy, -⟩, hc⟩, hid, -⟩
      exact ⟨y, hy, (buildCandidate_eq_some hc).1.symm.trans hid, by simp [hc]⟩
    · rintro ⟨y, hy, rfl, hsome⟩
      obtain ⟨c, hc⟩ := Option.isSome_iff_exists.1 hsome
      obtain ⟨hid, hmode, -⟩ := buildCandidate_eq_some hc
      exact ⟨c, ⟨y, ⟨hy, by simp [existingSetupIds, hhas]⟩, hc⟩, hid, hmode⟩

theorem eligible_of_window (hx : x ∈ window batch setups) (hsome : (buildCandidate x).isSome) : Eligible x := by
  obtain ⟨c, hc⟩ := Option.isSome_iff_exists.1 hsome
  exact ⟨(mem_window hx).2, (buildCandidate_eq_some hc).2.2⟩

/-- **One step** makes progress exactly when the window holds a setup that waits and can be read. -/
theorem progresses_iff (s : SelectorState) (op : SelectorOp) : Progresses s op ↔ InBatch s op := by
  cases op with
  | tick batch now =>
    refine imp_congr_right fun _ => ?_
    simp only [hasCandidate_selectorTick]
    constructor
    · rintro ⟨x, -, ⟨-, hnone⟩, hhas | ⟨y, hy, hid, hsome⟩⟩
      · exact absurd hhas hnone
      · exact ⟨y, hy, ⟨eligible_of_window hy hsome, hid ▸ hnone⟩, hsome⟩
    · rintro ⟨x, hx, hwaits, hsome⟩
      exact ⟨x, (mem_window hx).1, hwaits, .inr ⟨x, hx, rfl, hsome⟩⟩
  | _ => exact Iff.rfl

/-! ## Tick after tick -/

/-- `n + 1` ticks over the same setups. -/
def ticks (batch : ℕ) (now : DateTime) (n : ℕ) (s : SelectorState) : SelectorState :=
  run selectorStep s (List.replicate (n + 1) (.tick batch now))

/-- The first tick over a set of setups does what all later ones would. -/
theorem hasCandidate_ticks (n : ℕ) (s : SelectorState) :
    HasCandidate (ticks batch now n s).candidates id "dry" ↔
      HasCandidate s.candidates id "dry" ∨
        ∃ y ∈ window batch s.setups, y.id = id ∧ (buildCandidate y).isSome := by
  unfold ticks
  induction n generalizing s with
  | zero => exact hasCandidate_selectorTick
  | succ n ih =>
    rw [List.replicate_succ, run_cons, ih]
    simp [selectorStep, hasCandidate_selectorTick]

/-- **The selector.** In a run a tick enqueues a setup that waits, whenever there is one, exactly when such a setup
is in its window and readable. And ticks over the same setups enqueue all that wait exactly when each of them is. -/
theorem selector_iff (s : SelectorState) (ops : List SelectorOp) (batch n : ℕ) (now : DateTime) :
    (AllSteps selectorStep Progresses s ops ↔ AllSteps selectorStep InBatch s ops) ∧
    ((∀ x ∈ s.setups, Waits s.candidates x → HasCandidate (ticks batch now n s).candidates x.id "dry") ↔
      ∀ x ∈ s.setups, Waits s.candidates x →
        ∃ y ∈ window batch s.setups, y.id = x.id ∧ (buildCandidate y).isSome) := by
  constructor
  · exact allSteps_congr (J := fun _ => True) (K := fun _ => True) (fun _ _ _ _ => trivial)
      (fun s op _ _ => progresses_iff s op) trivial fun _ _ => trivial
  · refine forall₂_congr fun x _ => forall_congr' fun hwaits => ?_
    rw [hasCandidate_ticks, or_iff_right hwaits.2]

/-- A setup at 100 with its stop at 95. -/
def setupAt100 (id : Uuid) (createdAt : DateTime) (direction : String) : V2SetupRow :=
  ⟨id, createdAt, "crypto", "binance", "BTCUSDT", "15m", .armed, direction, some (some 100), some (some 95), none, none⟩

/-- Twenty neutral setups are newer than a long one, and no tick ever gets to it. -/
theorem neutral_setups_starve_long :
    let setups := setupAt100 0 0 "long" :: (List.range 20).map fun n => setupAt100 (n + 1) (n + 1) "neutral"
    ¬ AllSteps selectorStep Progresses ⟨setups, ∅⟩ [.tick 20 100]
      ∧ Waits ∅ (setupAt100 0 0 "long")
      ∧ ∀ n, ¬ HasCandidate (ticks 20 100 n ⟨setups, ∅⟩).candidates 0 "dry" := by
  refine ⟨?_, by decide +kernel, fun n => ?_⟩
  · rintro ⟨htick, -⟩
    rw [progresses_iff] at htick
    obtain ⟨x, hx, -, hsome⟩ := htick ⟨setupAt100 0 0 "long", by simp, by decide +kernel⟩
    revert hsome
    revert x
    decide +kernel
  · rw [hasCandidate_ticks]
    decide +kernel

end Qtss.Worker
