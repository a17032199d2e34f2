import Mathlib.Data.List.AList
import Mathlib.Data.List.Dedup
import Mathlib.Data.List.Sort
import Mathlib.Algebra.BigOperators.Group.List.Basic
import Mathlib.Tactic.Abel
/-!
# Hash maps with unspecified iteration order

A hash map is Mathlib's `AList`: a list of entries with no repeated key, so "one value per key" is
part of the type. On top of Mathlib's `lookup` / `insert` / `erase` this adds what imperative code
does with a map: in-place modification (`adjust`), collecting pairs of which later ones win
(`collect`), sums over the values, which do not depend on the order of the entries
(`sumValues_insert`), and, for ordered maps, the iteration in key order (`ascending`).
-/
namespace Keyed

/-- At most one value per key; the order of the entries carries no meaning. -/
abbrev HashMap (κ ν : Type*) := AList (fun _ : κ => ν)

variable {κ ν : Type*}

/-- The values, in some order. -/
def values (m : HashMap κ ν) : List ν := m.entries.map (·.2)

variable [DecidableEq κ]

/-- `if let Some(v) = m.get_mut(k) { *v = f(v) }`. -/
def adjust (f : ν → ν) (k : κ) (m : HashMap κ ν) : HashMap κ ν :=
  match m.lookup k with
  | some v => m.insert k (f v)
  | none => m

/-- `pairs.into_iter().collect()`: a later pair replaces an earlier one with the same key. -/
def collect (l : List (κ × ν)) : HashMap κ ν := l.foldl (fun m p => m.insert p.1 p.2) ∅

/-- `m.retain(|k, v| p(k, v))`. -/
def retain (p : κ → ν → Bool) (m : HashMap κ ν) : HashMap κ ν :=
  ⟨m.entries.filter fun e => p e.1 e.2, m.nodupKeys.sublist List.filter_sublist⟩

/-! ## Lookup -/

@[simp] theorem lookup_insert_eq (m : HashMap κ ν) (k j : κ) (v : ν) :
    (m.insert k v).lookup j = if j = k then some v else m.lookup j := by
  by_cases h : j = k
  · subst h; simp
  · simp [h, AList.lookup_insert_ne h]

@[simp] theorem lookup_erase_eq (m : HashMap κ ν) (k j : κ) :
    (m.erase k).lookup j = if j = k then none else m.lookup j := by
  by_cases h : j = k
  · subst h; simp
  · simp [h, AList.lookup_erase_ne h]

@[simp] theorem lookup_adjust (f : ν → ν) (m : HashMap κ ν) (k j : κ) :
    (adjust f k m).lookup j = if j = k then (m.lookup j).map f else m.lookup j := by
  unfold adjust
  cases h : m.lookup k with
  | some v =>
    by_cases hj : j = k
    · subst hj; simp [h]
    · simp [hj]
  | none =>
    by_cases hj : j = k
    · subst hj; simp [h]
    · simp [hj]

theorem mem_keys_iff (m : HashMap κ ν) (k : κ) : k ∈ m.keys ↔ ∃ v, m.lookup k = some v := by
  rw [← AList.mem_keys, ← AList.lookup_isSome, Option.isSome_iff_exists]

theorem mem_values_iff (m : HashMap κ ν) (v : ν) : v ∈ values m ↔ ∃ k, m.lookup k = some v := by
  unfold values
  constructor
  · intro h
    obtain ⟨⟨k, v⟩, he, rfl⟩ := List.mem_map.1 h
    exact ⟨k, AList.mem_lookup_iff.2 he⟩
  · rintro ⟨k, h⟩
    exact List.mem_map.2 ⟨⟨k, v⟩, AList.mem_lookup_iff.1 h, rfl⟩

@[simp] theorem lookup_retain (p : κ → ν → Bool) (m : HashMap κ ν) (k : κ) :
    (retain p m).lookup k = (m.lookup k).filter (p k) := by
  ext v
  rw [Option.filter_eq_some_iff, ← Option.mem_def, AList.mem_lookup_iff, ← Option.mem_def, AList.mem_lookup_iff]
  exact List.mem_filter

/-- Modifying under a list of keys: an idempotent change is made once however often a key is
listed. -/
theorem lookup_foldl_adjust {f : ν → ν} (hf : ∀ v, f (f v) = f v) (j : κ) (ks : List κ)
    (m : HashMap κ ν) :
    (ks.foldl (fun m k => adjust f k m) m).lookup j =
      if j ∈ ks then (m.lookup j).map f else m.lookup j := by
  induction ks generalizing m with
  | nil => simp
  | cons k ks ih =>
    have hff : f ∘ f = f := funext hf
    rw [List.foldl_cons, ih, lookup_adjust]
    by_cases hk : j = k <;> by_cases hks : j ∈ ks <;> simp [hk, hks, hff]

/-- Modifying under distinct keys: each once. -/
theorem lookup_foldl_adjust_of_nodup {f : ν → ν} (j : κ) {ks : List κ} (hks : ks.Nodup)
    (m : HashMap κ ν) :
    (ks.foldl (fun m k => adjust f k m) m).lookup j =
      if j ∈ ks then (m.lookup j).map f else m.lookup j := by
  induction ks generalizing m with
  | nil => simp
  | cons k ks ih =>
    obtain ⟨hk, hks⟩ := List.nodup_cons.1 hks
    rw [List.foldl_cons, ih hks, lookup_adjust]
    by_cases hj : j = k
    · subst hj; simp [hk]
    · simp [hj]

/-! ## Collecting -/

theorem lookup_foldl_insert (j : κ) (l : List (κ × ν)) (m : HashMap κ ν) :
    (l.foldl (fun m p => m.insert p.1 p.2) m).lookup j =
      ((l.filter (·.1 = j)).getLast?.map (·.2)).or (m.lookup j) := by
  induction l generalizing m with
  | nil => simp
  | cons p l ih =>
    obtain ⟨k, v⟩ := p
    rw [List.foldl_cons, ih, lookup_insert_eq]
    by_cases h : k = j
    · subst h
      cases hl : (l.filter (·.1 = k)).getLast? <;> simp [List.getLast?_cons, hl]
    · simp [h, Ne.symm h]

/-- The same with keys and values that are read off the elements. -/
theorem lookup_foldl_insert_by {α : Type*} (f : α → κ) (g : α → ν) (j : κ) (l : List α) (m : HashMap κ ν) :
    (l.foldl (fun m a => m.insert (f a) (g a)) m).lookup j =
      ((l.filter (f · = j)).getLast?.map g).or (m.lookup j) := by
  have h := lookup_foldl_insert j (l.map fun a => (f a, g a)) m
  rw [List.foldl_map, List.filter_map, List.getLast?_map, Option.map_map] at h
  exact h

/-- With one pair for each key: what is under a key is its pair, or what was there before. -/
theorem lookup_foldl_insert_of_nodup {l : List (κ × ν)} (hl : (l.map (·.1)).Nodup) (m : HashMap κ ν) {j : κ} {v : ν} :
    (l.foldl (fun m p => m.insert p.1 p.2) m).lookup j = some v ↔
      (j, v) ∈ l ∨ j ∉ l.map (·.1) ∧ m.lookup j = some v := by
  induction l generalizing m with
  | nil => simp
  | cons p l ih =>
    obtain ⟨k, w⟩ := p
    obtain ⟨hk, hl⟩ := List.nodup_cons.1 hl
    rw [List.foldl_cons, ih hl, lookup_insert_eq]
    by_cases hj : j = k
    · subst hj
      have hnot : (j, v) ∉ l := fun h => hk (List.mem_map.2 ⟨_, h, rfl⟩)
      simp only [List.map_cons, List.mem_cons, hnot, Prod.mk.injEq, true_and]
      simp [hk, eq_comm]
    · simp [hj]

/-- The collected map holds the last pair of each key. -/
theorem lookup_collect (l : List (κ × ν)) (j : κ) :
    (collect l).lookup j = (l.filter (·.1 = j)).getLast?.map (·.2) := by
  rw [collect, lookup_foldl_insert, AList.lookup_empty, Option.or_none]

/-! ## Lists under a key -/

section lists
variable {ι : Type*}

/-- The list under a key: no entry counts as the empty list. -/
def listed (m : HashMap κ (List ι)) (k : κ) : List ι := (m.lookup k).getD []

/-- No key is kept for an empty list. -/
def NoEmpty (m : HashMap κ (List ι)) : Prop := ∀ k, m.lookup k ≠ some []

variable [DecidableEq ι]

/-- `let e = m.entry(k).or_default(); if !e.contains(&i) { e.push(i) }`. -/
def addTo (k : κ) (i : ι) (m : HashMap κ (List ι)) : HashMap κ (List ι) :=
  let entry := listed m k
  m.insert k (if i ∈ entry then entry else entry ++ [i])

/-- `if let Some(v) = m.get_mut(k) { v.retain(|x| x != i); if v.is_empty() { m.remove(k) } }`. -/
def dropFrom (k : κ) (i : ι) (m : HashMap κ (List ι)) : HashMap κ (List ι) :=
  match m.lookup k with
  | none => m
  | some v =>
    let v := v.filter (· ≠ i)
    if v = [] then m.erase k else m.insert k v

theorem listed_addTo (m : HashMap κ (List ι)) (k j : κ) (i : ι) :
    listed (addTo k i m) j =
      if j = k then (if i ∈ listed m k then listed m k else listed m k ++ [i]) else listed m j := by
  unfold addTo
  rw [listed, lookup_insert_eq]
  split <;> rfl

theorem listed_dropFrom (m : HashMap κ (List ι)) (k j : κ) (i : ι) :
    listed (dropFrom k i m) j =
      if j = k then (listed m k).filter (· ≠ i) else listed m j := by
  unfold dropFrom
  cases h : m.lookup k with
  | none =>
    by_cases hj : j = k
    · subst hj; simp [listed, h]
    · simp [hj]
  | some v =>
    simp only
    split
    · rename_i hv
      rw [listed, lookup_erase_eq]
      by_cases hj : j = k
      · rw [if_pos hj, if_pos hj, listed, h, Option.getD_some, hv]
        rfl
      · simp [hj, listed]
    · rw [listed, lookup_insert_eq]
      by_cases hj : j = k
      · simp [hj, listed, h]
      · simp [hj, listed]

/-- Adding lists `i` under `k` once if it was not there; nothing else moves. -/
theorem count_addTo (m : HashMap κ (List ι)) (k j : κ) (i x : ι) :
    (listed (addTo k i m) j).count x =
      if j = k ∧ x = i then max 1 ((listed m k).count i) else (listed m j).count x := by
  rw [listed_addTo]
  by_cases hj : j = k
  · subst hj
    by_cases hx : x = i
    · subst hx
      by_cases hm : x ∈ listed m j
      · have := List.count_pos_iff.2 hm
        simp only [hm, if_true, and_self]
        omega
      · simp [hm, List.count_eq_zero_of_not_mem hm]
    · have hi : List.count x [i] = 0 := by simp [Ne.symm hx]
      by_cases hm : i ∈ listed m j <;> simp [hm, hx, List.count_append, hi]
  · simp [hj]

/-- Dropping takes every `i` from under `k`; nothing else moves. -/
theorem count_dropFrom (m : HashMap κ (List ι)) (k j : κ) (i x : ι) :
    (listed (dropFrom k i m) j).count x =
      if j = k ∧ x = i then 0 else (listed m j).count x := by
  rw [listed_dropFrom]
  by_cases hj : j = k
  · subst hj
    by_cases hx : x = i
    · subst hx
      simp [List.count_eq_zero]
    · simp [hx, List.count_filter]
  · simp [hj]

theorem NoEmpty.addTo {m : HashMap κ (List ι)} (h : NoEmpty m) (k : κ) (i : ι) :
    NoEmpty (addTo k i m) := by
  intro j
  unfold Keyed.addTo
  rw [lookup_insert_eq]
  split
  · split
    · rename_i hm; simpa using List.ne_nil_of_mem hm
    · simp
  · exact h j

theorem NoEmpty.dropFrom {m : HashMap κ (List ι)} (h : NoEmpty m) (k : κ) (i : ι) :
    NoEmpty (dropFrom k i m) := by
  intro j
  unfold Keyed.dropFrom
  split
  · exact h j
  · simp only
    split
    · rw [lookup_erase_eq]
      split
      · simp
      · exact h j
    · rename_i hv
      rw [lookup_insert_eq]
      split
      · simpa using hv
      · exact h j

omit [DecidableEq ι] in
/-- Without empty lists the keys are those with something listed. -/
theorem NoEmpty.mem_keys_iff {m : HashMap κ (List ι)} (h : NoEmpty m) (k : κ) :
    k ∈ m.keys ↔ ∃ i, i ∈ listed m k := by
  rw [Keyed.mem_keys_iff]
  constructor
  · rintro ⟨v, hv⟩
    obtain ⟨i, hi⟩ := List.exists_mem_of_ne_nil v fun hnil => h k (hnil ▸ hv)
    exact ⟨i, by simpa [listed, hv] using hi⟩
  · rintro ⟨i, hi⟩
    cases hk : m.lookup k with
    | none => simp [listed, hk] at hi
    | some v => exact ⟨v, rfl⟩

end lists

/-! ## Sums over the values -/

section sums
variable {A : Type*} [AddCommGroup A]

/-- `m.values().map(f).sum()`. -/
def sumValues (f : ν → A) (m : HashMap κ ν) : A := ((values m).map f).sum

omit [DecidableEq κ] in
@[simp] theorem sumValues_empty (f : ν → A) : sumValues f (∅ : HashMap κ ν) = 0 := rfl

omit [DecidableEq κ] in
theorem sumValues_add (f g : ν → A) (m : HashMap κ ν) :
    sumValues (fun v => f v + g v) m = sumValues f m + sumValues g m := by
  simp only [sumValues]
  exact List.sum_map_add

theorem sum_kerase (f : κ → ν → A) (k : κ) (l : List (Sigma fun _ : κ => ν)) :
    (l.map fun s => f s.1 s.2).sum =
      ((l.dlookup k).map (f k)).getD 0 + ((l.kerase k).map fun s => f s.1 s.2).sum := by
  induction l with
  | nil => simp
  | cons p l ih =>
    obtain ⟨j, v⟩ := p
    by_cases h : k = j
    · subst h; simp
    · have hl : (⟨j, v⟩ :: l : List (Sigma fun _ : κ => ν)).dlookup k = l.dlookup k :=
        List.dlookup_cons_ne l ⟨j, v⟩ h
      have hk : (⟨j, v⟩ :: l : List (Sigma fun _ : κ => ν)).kerase k = ⟨j, v⟩ :: l.kerase k :=
        List.kerase_cons_ne h
      rw [hl, hk, List.map_cons, List.map_cons, List.sum_cons, List.sum_cons, ih, add_left_comm]

/-- The sum over the entries, keys included. -/
def sumEntries (f : κ → ν → A) (m : HashMap κ ν) : A := (m.entries.map fun e => f e.1 e.2).sum

theorem sumEntries_insert (f : κ → ν → A) (k : κ) (v : ν) (m : HashMap κ ν) :
    sumEntries f (m.insert k v) = sumEntries f m + f k v - ((m.lookup k).map (f k)).getD 0 := by
  have hm := sum_kerase f k m.entries
  simp only [sumEntries, AList.entries_insert, List.map_cons, List.sum_cons, AList.lookup]
  rw [hm]
  abel

/-- `*m.entry(k).or_insert(zero) += v` adds the share of `v`. -/
theorem sumEntries_upsert {f : κ → ν → A} {add : ν → ν → ν} {zero : ν} {k : κ} (hzero : f k zero = 0)
    (hadd : ∀ u v, f k (add u v) = f k u + f k v) (v : ν) (m : HashMap κ ν) :
    sumEntries f (m.insert k (add ((m.lookup k).getD zero) v)) = sumEntries f m + f k v := by
  rw [sumEntries_insert, hadd]
  cases m.lookup k with
  | none =>
    simp only [Option.getD_none, Option.map_none, hzero, zero_add, sub_zero]
  | some u =>
    simp only [Option.getD_some, Option.map_some]
    abel

/-- Inserting adds the new value's share and takes out the share of the value it replaces. -/
theorem sumValues_insert (f : ν → A) (k : κ) (v : ν) (m : HashMap κ ν) :
    sumValues f (m.insert k v) = sumValues f m + f v - ((m.lookup k).map f).getD 0 := by
  have hm := sum_kerase (fun _ => f) k m.entries
  simp only [sumValues, values, List.map_map, Function.comp_def, AList.entries_insert,
    List.map_cons, List.sum_cons, AList.lookup]
  rw [hm]
  abel

/-- Modifying adds the change of the modified value's share. -/
theorem sumValues_adjust (f : ν → A) (g : ν → ν) (k : κ) (m : HashMap κ ν) :
    sumValues f (adjust g k m) =
      sumValues f m + ((m.lookup k).map fun v => f (g v) - f v).getD 0 := by
  unfold adjust
  cases h : m.lookup k with
  | none => simp
  | some v => simp [sumValues_insert, h, add_sub_assoc]

end sums

/-! ## Iteration in key order -/

section ascending
variable {κ β : Type*} [LinearOrder κ]

/-- The keys of an ordered map or set built from `ks`, ascending. -/
def ascending (ks : List κ) : List κ := ks.dedup.insertionSort (· ≤ ·)

@[simp] theorem mem_ascending {ks : List κ} {k : κ} : k ∈ ascending ks ↔ k ∈ ks := by
  rw [ascending, List.mem_insertionSort, List.mem_dedup]

theorem nodup_ascending (ks : List κ) : (ascending ks).Nodup :=
  (List.perm_insertionSort _ _).nodup_iff.2 (List.nodup_dedup ks)

theorem ascending_sorted (ks : List κ) : (ascending ks).SortedLE := List.sortedLE_insertionSort

/-- What is listed of the keys does not depend on keys that list nothing. -/
theorem filterMap_ascending_congr {ks js : List κ} {f : κ → Option β} (hk : ∀ k ∉ ks, f k = none)
    (hj : ∀ k ∉ js, f k = none) : (ascending ks).filterMap f = (ascending js).filterMap f := by
  have hkeys : ∀ l : List κ, l.filterMap f = (l.filter fun k => (f k).isSome).filterMap f := by
    intro l
    rw [List.filterMap_filter]
    refine List.filterMap_congr fun k _ => ?_
    cases h : f k <;> simp
  have hsame : (ascending ks).filter (fun k => (f k).isSome) =
      (ascending js).filter fun k => (f k).isSome := by
    have hsorted : ∀ l : List κ, ((ascending l).filter fun k => (f k).isSome).SortedLE :=
      fun l => ((ascending_sorted l).pairwise.filter _).sortedLE
    refine List.Perm.eq_of_sortedLE (hsorted ks) (hsorted js) ?_
    refine (List.perm_ext_iff_of_nodup ((nodup_ascending ks).filter _)
      ((nodup_ascending js).filter _)).2 fun k => ?_
    simp only [List.mem_filter, mem_ascending]
    have hin : ∀ l : List κ, (∀ k ∉ l, f k = none) → (f k).isSome = true → k ∈ l := by
      intro l hl hsome
      by_contra hk
      simp [hl k hk] at hsome
    exact ⟨fun h => ⟨hin js hj h.2, h.2⟩, fun h => ⟨hin ks hk h.2, h.2⟩⟩
  rw [hkeys, hsame, ← hkeys]

/-- What is listed under one key. -/
theorem filter_filterMap_tag {f : κ → Option β} {tag : β → κ}
    (htag : ∀ k x, f k = some x → tag x = k) {l : List κ} (hl : l.Nodup) (k : κ) :
    (l.filterMap f).filter (fun x => tag x = k) = if k ∈ l then (f k).toList else [] := by
  induction l with
  | nil => simp
  | cons j l ih =>
    obtain ⟨hj, hl⟩ := List.nodup_cons.1 hl
    have ih := ih hl
    cases hf : f j with
    | none =>
      rw [List.filterMap_cons_none hf, ih]
      by_cases hk : k = j
      · subst hk
        simp [hj, hf]
      · simp [hk]
    | some x =>
      rw [List.filterMap_cons_some hf, List.filter_cons, ih]
      by_cases hk : k = j
      · subst hk
        simp [htag k x hf, hj, hf]
      · simp [htag j x hf, hk, Ne.symm hk]

/-- Two listings are equal exactly when they list the same under each key. -/
theorem filterMap_ascending_eq_iff {ks js : List κ} {f g : κ → Option β} {tag : β → κ}
    (hf : ∀ k x, f k = some x → tag x = k) (hg : ∀ k x, g k = some x → tag x = k)
    (hk : ∀ k ∉ ks, f k = none) (hj : ∀ k ∉ js, g k = none) :
    (ascending ks).filterMap f = (ascending js).filterMap g ↔ ∀ k, f k = g k := by
  constructor
  · intro h k
    have hfilter := congrArg (List.filter fun x => tag x = k) h
    rw [filter_filterMap_tag hf (nodup_ascending ks), filter_filterMap_tag hg (nodup_ascending js)]
      at hfilter
    simp only [mem_ascending] at hfilter
    have hlist : (f k).toList = (g k).toList := by
      by_cases h1 : k ∈ ks <;> by_cases h2 : k ∈ js <;> simp_all
    cases h1 : f k <;> cases h2 : g k <;> simp_all
  · intro h
    obtain rfl : f = g := funext h
    exact filterMap_ascending_congr hk hj

end ascending

end Keyed
