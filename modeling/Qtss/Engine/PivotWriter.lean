import Qtss.Engine.Harmonic
import Qtss.Lib.Runs
import Qtss.Pivots.Confirmed
/-
# The pivot writer (`qtss-engine/src/writers/pivot.rs`) and what the pattern writers read

| here | there |
| --- | --- |
| `PivotRow`        | the columns of `pivots` (0207_pivots_canonical_table.sql) that are written; `open_time` is the key |
| `swingTagFor`     | `swing_tag_for` (:74) |
| `pivotRows`, `processSymbol` | `process_symbol` (:92): the rows of a slot, and a symbol with its five slots |
| `ListPivotsBySlot` | `list_pivots_by_slot` (harmonic.rs:67) |

A row keeps the index that it was last written with, which counts from the first bar of the window of that tick. While
the window still starts at that bar all rows count from it, and what is read is the zigzag of the window (`in_order`).
Once a bar has dropped out, rows that the new window does not find again are left with an index of the old count.
-/

namespace Qtss.Engine
open Keyed Pivots Runs

structure PivotRow where
  barIndex : ℤ
  direction : ℤ
  price : ℚ
  volume : ℚ
  swingTag : Option String
  prominence : ℚ

abbrev PivotTable := HashMap DateTime PivotRow

def swingTagFor (direction : ℤ) (price : ℚ) (prev : Option (ℤ × ℚ)) : Option String := do
  let prev ← prev
  if prev.1 ≠ direction then none
  else if direction = 1 then some (if price ≥ prev.2 then "HH" else "LH")
  else some (if price ≤ prev.2 then "LL" else "HL")

/-! ## The writer -/

/-- The bars of the window, numbered from 0. -/
def samplesOf (bars : List MarketBarRow) : List (Sample ℚ) :=
  bars.zipIdx.map fun p => ⟨p.2, p.1.openTime, p.1.high, p.1.low, p.1.volume⟩

/-- `prev` is the pivot before, of whatever direction. -/
def pivotRows : Option (ℤ × ℚ) → List (ConfirmedPivot ℚ) → List (DateTime × PivotRow)
  | _, [] => []
  | prev, cp :: rest =>
    (cp.time, ⟨cp.barIndex, cp.direction, cp.price, cp.volumeAtPivot, swingTagFor cp.direction.sign cp.price prev,
      cp.prominence⟩) :: pivotRows (some (cp.direction.sign, cp.price)) rest

/-- The rows of a slot. -/
def slotRows (length : ℕ) (bars : List MarketBarRow) : List (DateTime × PivotRow) :=
  pivotRows none (confirmed (samplesOf bars) length)

/-- A series, its pivots, and the number of the first bar of the window of the last tick that wrote. -/
structure Chart where
  bars : BarSeries
  pivots : Fin 5 → PivotTable
  start : Option ℕ

def Chart.empty : Chart := ⟨⟨[], List.Pairwise.nil⟩, fun _ => ∅, none⟩

/-- `n` is the limit of `list_recent_bars`. -/
def processSymbol (n : ℕ) (lengths : Fin 5 → ℕ) (s : Chart) : Chart :=
  let bars := s.bars.bars.rtake n
  if bars.length < 10 then s
  else
    { s with
      pivots := fun slot => (slotRows (lengths slot) bars).foldl (fun m r => m.insert r.1 r.2) (s.pivots slot)
      start := some (s.bars.bars.length - n) }

/-- A series grows at its end: a bar that is not later than all there are is not a new one. -/
def BarSeries.append (s : BarSeries) (b : MarketBarRow) : BarSeries :=
  if h : ∀ a ∈ s.bars, a.openTime < b.openTime then
    ⟨s.bars ++ [b], List.pairwise_append.2 ⟨s.ascending, List.pairwise_singleton _ _, fun a ha _ hb =>
      List.mem_singleton.1 hb ▸ h a ha⟩⟩
  else s

inductive ChartOp where
  | bar (b : MarketBarRow)
  | tick

def chartStep (n : ℕ) (lengths : Fin 5 → ℕ) (s : Chart) : ChartOp → Chart
  | .bar b => { s with bars := s.bars.append b }
  | .tick => processSymbol n lengths s

/-! ## The readers -/

/-- The columns that are read. -/
def storedPivots (m : PivotTable) : List StoredPivot :=
  m.entries.map fun e => ⟨e.2.barIndex, e.1, e.2.direction, e.2.price⟩

/-- `l` is an answer to the query: the last `limit` by the index, which leaves rows with one index in any order. -/
def ListPivotsBySlot (m : PivotTable) (limit : ℕ) (l : List StoredPivot) : Prop :=
  ∃ sorted : List StoredPivot,
    sorted.Perm (storedPivots m) ∧ sorted.Pairwise (·.barIndex ≤ ·.barIndex) ∧ l = sorted.rtake limit

/-- Later and later, up and down in turn. -/
def InOrder (l : List StoredPivot) : Prop :=
  l.Pairwise (·.openTime < ·.openTime) ∧ l.IsChain fun p q => p.direction.sign ≠ q.direction.sign

instance : DecidablePred InOrder := fun _ => inferInstanceAs (Decidable (_ ∧ _))

/-- Whatever is read of the slot is in order. -/
def ReadsInOrder (slot : Fin 5) (s : Chart) : Prop := ∀ limit l, ListPivotsBySlot (s.pivots slot) limit l → InOrder l

/-- A tick that finds rows in the slot has the window start where the last one had it. -/
def StaysPut (n : ℕ) (slot : Fin 5) (s : Chart) : ChartOp → Prop
  | .bar _ => True
  | .tick => storedPivots (s.pivots slot) = [] ∨ s.start = some (s.bars.bars.length - n)

instance (n : ℕ) (slot : Fin 5) (s : Chart) : DecidablePred (StaysPut n slot s)
  | .bar _ => inferInstanceAs (Decidable True)
  | .tick => inferInstanceAs (Decidable (_ ∨ _))

variable {n length : ℕ} {lengths : Fin 5 → ℕ} {slot : Fin 5} {s : Chart} {bars seen : List MarketBarRow}
  {m : PivotTable} {p : StoredPivot}

/-! ## The rows of a window -/

theorem samplesOf_mono (h : seen <+: bars) : samplesOf seen <+: samplesOf bars := by
  obtain ⟨more, rfl⟩ := h
  rw [samplesOf, samplesOf, List.zipIdx_append, List.map_append]
  exact List.prefix_append _ _

theorem numberedFrom_samplesOf (bars : List MarketBarRow) : NumberedFrom 0 (samplesOf bars) :=
  numberedFrom_zipIdx bars fun _ => rfl

theorem samplesOf_ascending (h : bars.Pairwise (·.openTime < ·.openTime)) :
    (samplesOf bars).Pairwise (·.time < ·.time) := by
  have hfst : (bars.zipIdx.map Prod.fst).Pairwise (·.openTime < ·.openTime) := by rwa [List.zipIdx_map_fst]
  rw [List.pairwise_map] at hfst
  exact List.pairwise_map.2 hfst

/-- A pivot, as it is read. -/
def storedOf (cp : ConfirmedPivot ℚ) : StoredPivot := ⟨cp.barIndex, cp.time, cp.direction, cp.price⟩

theorem map_pivotRows (prev : Option (ℤ × ℚ)) (cps : List (ConfirmedPivot ℚ)) :
    (pivotRows prev cps).map (fun r => (⟨r.2.barIndex, r.1, r.2.direction, r.2.price⟩ : StoredPivot)) =
      cps.map storedOf := by
  induction cps generalizing prev with
  | nil => rfl
  | cons cp rest ih => rw [pivotRows, List.map_cons, List.map_cons, ih]; rfl

theorem keys_pivotRows (prev : Option (ℤ × ℚ)) (cps : List (ConfirmedPivot ℚ)) :
    (pivotRows prev cps).map (·.1) = cps.map (·.time) := by
  induction cps generalizing prev with
  | nil => rfl
  | cons cp rest ih => rw [pivotRows, List.map_cons, List.map_cons, ih]

/-- What a window gives, as it is read. -/
def zigzagOf (length : ℕ) (bars : List MarketBarRow) : List StoredPivot :=
  (confirmed (samplesOf bars) length).map storedOf

theorem zigzagOf_mono (h : seen <+: bars) : zigzagOf length seen <+: zigzagOf length bars :=
  (confirmed_mono (samplesOf_mono h) length).map _

variable (length) in
theorem zigzagOf_sorted (h : bars.Pairwise (·.openTime < ·.openTime)) :
    (zigzagOf length bars).Pairwise fun p q => p.barIndex < q.barIndex ∧ p.openTime < q.openTime := by
  refine List.pairwise_map.2 (((computePivots_sorted length (numberedFrom_samplesOf bars)
    (samplesOf_ascending h)).sublist (List.dropLast_sublist _)).imp ?_)
  exact fun ⟨hindex, htime⟩ => ⟨Int.ofNat_lt.2 hindex, htime⟩

theorem confirmed_alternates :
    (confirmed (samplesOf bars) length).IsChain fun p q => p.direction.sign ≠ q.direction.sign := by
  have h := read_computePivots (samplesOf bars) length (numberedFrom_samplesOf bars)
  refine (List.IsChain.imp_of_mem_imp ?_ h.alternate).dropLast
  intro A B hA hB hkind
  rw [h.sign A hA, h.sign B hB, hkind]
  cases A.kind <;> decide

theorem zigzagOf_alternates : (zigzagOf length bars).IsChain fun p q => p.direction.sign ≠ q.direction.sign :=
  (List.isChain_map storedOf).2 confirmed_alternates

/-- No pivot is compared with one of its own direction: the tag is never set. -/
theorem swingTag_pivotRows {prev : Option (ℤ × ℚ)} {cps : List (ConfirmedPivot ℚ)}
    (hchain : cps.IsChain fun p q => p.direction.sign ≠ q.direction.sign)
    (hprev : ∀ q ∈ prev, ∀ cp ∈ cps.head?, q.1 ≠ cp.direction.sign) {r : DateTime × PivotRow}
    (hr : r ∈ pivotRows prev cps) : r.2.swingTag = none := by
  induction cps generalizing prev with
  | nil => cases hr
  | cons cp rest ih =>
    rcases List.mem_cons.1 hr with rfl | hr
    · cases prev with
      | none => rfl
      | some q => simp [swingTagFor, hprev q rfl cp rfl]
    · obtain ⟨hnext, hchain⟩ := List.isChain_cons.1 hchain
      refine ih hchain (fun q hq cp' hcp' => ?_) hr
      obtain rfl := Option.some.inj hq
      exact hnext cp' hcp'

theorem swingTag_slotRows {r : DateTime × PivotRow} (hr : r ∈ slotRows length bars) : r.2.swingTag = none := by
  refine swingTag_pivotRows confirmed_alternates ?_ hr
  rintro _ ⟨⟩

/-! ## A table and a window -/

theorem mem_storedPivots :
    p ∈ storedPivots m ↔ ∃ r, m.lookup p.openTime = some r ∧ p = ⟨r.barIndex, p.openTime, r.direction, r.price⟩ := by
  rw [storedPivots, List.mem_map]
  constructor
  · rintro ⟨⟨t, r⟩, he, rfl⟩
    exact ⟨r, AList.mem_lookup_iff.2 he, rfl⟩
  · rintro ⟨r, hr, hp⟩
    exact ⟨⟨p.openTime, r⟩, AList.mem_lookup_iff.1 hr, hp.symm⟩

theorem nodup_storedPivots (m : PivotTable) : (storedPivots m).Nodup := by
  have hkeys : (m.entries.map Sigma.fst).Nodup := m.nodupKeys
  refine List.Nodup.of_map StoredPivot.openTime ?_
  rw [storedPivots, List.map_map]
  exact hkeys

/-- The table holds what the window gives. -/
def Mirrors (length : ℕ) (bars : List MarketBarRow) (m : PivotTable) : Prop :=
  ∀ p, p ∈ storedPivots m ↔ p ∈ zigzagOf length bars

theorem Mirrors.inOrder (h : Mirrors length bars m) (hasc : bars.Pairwise (·.openTime < ·.openTime)) {limit : ℕ}
    {l : List StoredPivot} (hl : ListPivotsBySlot m limit l) : InOrder l := by
  obtain ⟨sorted, hperm, hsorted, rfl⟩ := hl
  have hzigzag := zigzagOf_sorted length hasc
  have hindex := hzigzag.imp And.left
  have hdistinct : ((zigzagOf length bars).map (·.barIndex)).Nodup := List.pairwise_map.2 (hindex.imp ne_of_lt)
  have hall : sorted.Perm (zigzagOf length bars) :=
    hperm.trans ((List.perm_ext_iff_of_nodup (nodup_storedPivots m) hdistinct.of_map).2 h)
  -- no two pivots have one index, so there is one way to sort them
  have heq : sorted = zigzagOf length bars := by
    refine hall.eq_of_pairwise (fun p q hp hq hpq hqp => ?_) hsorted (hindex.imp le_of_lt)
    exact List.inj_on_of_nodup_map hdistinct (hall.subset hp) hq (le_antisymm hpq hqp)
  rw [heq]
  exact ⟨(hzigzag.imp And.right).sublist (List.drop_sublist _ _), zigzagOf_alternates.drop _⟩

/-- The rows of a window over a table: they replace what was there of their times. -/
theorem mem_storedPivots_upsert (hasc : bars.Pairwise (·.openTime < ·.openTime)) :
    p ∈ storedPivots ((slotRows length bars).foldl (fun m r => m.insert r.1 r.2) m) ↔
      p ∈ zigzagOf length bars ∨
        p.openTime ∉ (zigzagOf length bars).map (·.openTime) ∧ p ∈ storedPivots m := by
  have hkeys : (slotRows length bars).map (·.1) = (zigzagOf length bars).map (·.openTime) := by
    rw [slotRows, keys_pivotRows, zigzagOf, List.map_map]
    rfl
  have hnodup : ((slotRows length bars).map (·.1)).Nodup := by
    rw [hkeys]
    exact List.pairwise_map.2 ((zigzagOf_sorted length hasc).imp fun h => h.2.ne)
  have hrows : p ∈ zigzagOf length bars ↔
      ∃ r, (p.openTime, r) ∈ slotRows length bars ∧ p = ⟨r.barIndex, p.openTime, r.direction, r.price⟩ := by
    rw [zigzagOf, ← map_pivotRows none, ← slotRows, List.mem_map]
    constructor
    · rintro ⟨⟨t, r⟩, hr, rfl⟩
      exact ⟨r, hr, rfl⟩
    · rintro ⟨r, hr, hp⟩
      exact ⟨_, hr, hp.symm⟩
  rw [mem_storedPivots, mem_storedPivots, hrows, ← hkeys]
  simp only [lookup_foldl_insert_of_nodup hnodup, or_and_right, exists_or, and_assoc, exists_and_left]

/-- A tick over a table of an older window that starts where this one does. -/
theorem Mirrors.upsert (h : ∀ p ∈ storedPivots m, p ∈ zigzagOf length seen) (hseen : seen <+: bars)
    (hasc : bars.Pairwise (·.openTime < ·.openTime)) :
    Mirrors length bars ((slotRows length bars).foldl (fun m r => m.insert r.1 r.2) m) := by
  intro p
  rw [mem_storedPivots_upsert hasc]
  refine or_iff_left_of_imp fun ⟨hnew, hold⟩ => ?_
  exact absurd (List.mem_map_of_mem ((zigzagOf_mono hseen).subset (h p hold))) hnew

theorem Mirrors.upsert_of_nil (h : storedPivots m = []) (hasc : bars.Pairwise (·.openTime < ·.openTime)) :
    Mirrors length bars ((slotRows length bars).foldl (fun m r => m.insert r.1 r.2) m) := by
  have hseen : ([] : List MarketBarRow) <+: bars := List.nil_prefix
  exact Mirrors.upsert (fun p hp => by simp [h] at hp) hseen hasc

/-! ## Runs -/

/-- The slot is empty, or mirrors what was there of the series when its last window was read. -/
def Current (length : ℕ) (slot : Fin 5) (s : Chart) : Prop :=
  storedPivots (s.pivots slot) = [] ∨
    ∃ start seen, s.start = some start ∧ seen <+: s.bars.bars.drop start ∧ Mirrors length seen (s.pivots slot)

theorem Current.readsInOrder (h : Current length slot s) : ReadsInOrder slot s := by
  intro limit l hl
  rcases h with hnil | ⟨start, seen, -, hseen, hmirrors⟩
  · obtain ⟨sorted, hperm, -, rfl⟩ := hl
    rw [hnil, List.perm_nil] at hperm
    rw [hperm, List.rtake_nil]
    exact ⟨List.Pairwise.nil, List.isChain_nil⟩
  · refine hmirrors.inOrder (s.bars.ascending.sublist ?_) hl
    exact hseen.sublist.trans (List.drop_sublist _ _)

theorem drop_prefix_append (b : MarketBarRow) (start : ℕ) :
    s.bars.bars.drop start <+: (s.bars.append b).bars.drop start := by
  unfold BarSeries.append
  split
  next =>
    rw [List.drop_append]
    exact List.prefix_append _ _
  next => exact List.prefix_rfl

theorem current_step (h : Current (lengths slot) slot s) (op : ChartOp) (hstays : StaysPut n slot s op) :
    Current (lengths slot) slot (chartStep n lengths s op) := by
  cases op with
  | bar b =>
    refine h.imp_right fun ⟨start, seen, hstart, hseen, hmirrors⟩ => ?_
    exact ⟨start, seen, hstart, hseen.trans (drop_prefix_append b start), hmirrors⟩
  | tick =>
    rw [chartStep, processSymbol]
    split
    next => exact h
    next =>
      have hasc : (s.bars.bars.rtake n).Pairwise (·.openTime < ·.openTime) :=
        s.bars.ascending.sublist (List.drop_sublist _ _)
      refine .inr ⟨_, s.bars.bars.rtake n, rfl, List.prefix_rfl, ?_⟩
      rcases hstays with hnil | hstart
      · exact Mirrors.upsert_of_nil hnil hasc
      · rcases h with hnil | ⟨start, seen, hstart', hseen, hmirrors⟩
        · exact Mirrors.upsert_of_nil hnil hasc
        · obtain rfl := Option.some.inj (hstart'.symm.trans hstart)
          exact Mirrors.upsert (fun p hp => (hmirrors p).1 hp) hseen hasc

/-- **The pivots in order**: in a run whose ticks all have the window start where the last one had it, or find the slot
empty, whatever is read of a slot is later and later and goes up and down in turn. -/
theorem in_order (n : ℕ) (lengths : Fin 5 → ℕ) (slot : Fin 5) (ops : List ChartOp)
    (hstays : AllSteps (chartStep n lengths) (StaysPut n slot) .empty ops) :
    AllStates (chartStep n lengths) (ReadsInOrder slot) .empty ops := by
  refine (allStates_of_allSteps (J := Current (lengths slot) slot) (K := fun _ => True) ?_ (.inl rfl)
    (fun _ _ => trivial) hstays).imp fun _ h => h.readsInOrder
  exact fun _ op h _ hput => current_step h op hput

/-! ## A window of ten bars -/

/-- Bars `i` to `j`: from 10 to 11 and from 12 to 13, in turn. -/
def sawTape (i j : ℕ) : List ChartOp :=
  (List.range' i (j - i)).map fun k => .bar (if k % 2 = 0 then ⟨k, 11, 10, 10, 1⟩ else ⟨k, 13, 12, 13, 1⟩)

theorem saw_in_order :
    let ops := sawTape 0 10 ++ [.tick] ++ sawTape 10 13 ++ [.tick]
    AllStates (chartStep 2000 fun _ => 2) (ReadsInOrder 0) .empty ops
      ∧ (storedPivots ((run (chartStep 2000 fun _ => 2) .empty ops).pivots 0)).length = 11 :=
  ⟨in_order 2000 (fun _ => 2) 0 _ (by decide +kernel), by decide +kernel⟩

/-- With three bars more than the window holds, the pivots at 1, 2 and 3 keep the indices that those at 4, 5 and 6 now
have. -/
theorem stale_rows_scramble :
    let ops := sawTape 0 10 ++ [.tick] ++ sawTape 10 13 ++ [.tick]
    let s := run (chartStep 10 fun _ => 2) .empty ops
    ¬ AllStates (chartStep 10 fun _ => 2) (ReadsInOrder 0) .empty ops
      ∧ ∃ l, ListPivotsBySlot (s.pivots 0) 500 l
        ∧ l.map (fun p => (p.barIndex, p.openTime, p.direction.sign)) =
          [(1, 4, -1), (1, 1, 1), (2, 5, 1), (2, 2, -1), (3, 6, -1), (3, 3, 1), (4, 7, 1), (5, 8, -1), (6, 9, 1),
            (7, 10, -1), (8, 11, 1)] := by
  intro ops s
  let l := (storedPivots (s.pivots 0)).insertionSort (·.barIndex ≤ ·.barIndex)
  have hl : ListPivotsBySlot (s.pivots 0) 500 l :=
    ⟨l, List.perm_insertionSort _ _, by decide +kernel, by decide +kernel⟩
  have hnot : ¬ InOrder l := by decide +kernel
  exact ⟨fun h => hnot (h.last 500 l hl), l, hl, by decide +kernel⟩

end Qtss.Engine
