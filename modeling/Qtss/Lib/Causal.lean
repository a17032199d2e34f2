import Mathlib.Data.List.GetD
import Mathlib.Data.List.Induction
/-!
# Series that are worked out as they come in

A function of a series is causal if it has an entry for every entry of the series, and the entries for what is known now
stay as they are when more comes in. Loops over the places of a series are causal if no round reads the series later than
its own place (`Causal.warm`, `Causal.loop_all`), and causal functions combine to causal ones.
-/

variable {α β γ δ σ : Type*}

structure Causal (f : List α → List β) : Prop where
  length : ∀ l, (f l).length = l.length
  grows : ∀ l x, f l <+: f (l ++ [x])

namespace Causal

/-- `for i in is`, with what the loop carries from round to round, and the entry that each round writes. -/
def scan (step : σ → ℕ → σ × β) : σ → List ℕ → List β
  | _, [] => []
  | s, i :: is => (step s i).2 :: scan step (step s i).1 is

@[simp] theorem scan_nil (step : σ → ℕ → σ × β) (s : σ) : scan step s [] = [] := rfl

@[simp] theorem length_scan (step : σ → ℕ → σ × β) (s : σ) (is : List ℕ) : (scan step s is).length = is.length := by
  induction is generalizing s with
  | nil => rfl
  | cons i is ih => simp [scan, ih]

theorem scan_prefix (step : σ → ℕ → σ × β) (s : σ) (is js : List ℕ) : scan step s is <+: scan step s (is ++ js) := by
  induction is generalizing s with
  | nil => simp
  | cons i is ih => simpa [scan] using ih _

/-- Nothing is carried. -/
theorem scan_unit (g : ℕ → β) (is : List ℕ) : scan (fun _ i => ((), g i)) () is = is.map g := by
  induction is with
  | nil => rfl
  | cons i is ih => simp [scan, ih]

theorem scan_congr (step step' : σ → ℕ → σ × β) {is : List ℕ} (h : ∀ i ∈ is, ∀ s, step s i = step' s i) (s : σ) :
    scan step s is = scan step' s is := by
  induction is generalizing s with
  | nil => rfl
  | cons i is ih =>
    rw [scan, scan, h i (by simp), ih fun j hj => h j (by simp [hj])]

/-- What the loop carries after some rounds. -/
def carry (step : σ → ℕ → σ × β) (s : σ) (is : List ℕ) : σ := is.foldl (fun s i => (step s i).1) s

theorem carry_concat (step : σ → ℕ → σ × β) (s : σ) (w k : ℕ) :
    carry step s (List.range' w (k + 1)) = (step (carry step s (List.range' w k)) (w + k)).1 := by
  simp [carry, List.range'_concat]

theorem getElem?_scan (step : σ → ℕ → σ × β) (s : σ) {w k m : ℕ} (hm : m < k) :
    (scan step s (List.range' w k))[m]? = some (step (carry step s (List.range' w m)) (w + m)).2 := by
  induction m generalizing s w k with
  | zero =>
    obtain ⟨k, rfl⟩ := Nat.exists_eq_succ_of_ne_zero (Nat.ne_of_gt hm)
    simp [scan, carry, List.range'_succ]
  | succ m ih =>
    obtain ⟨k, rfl⟩ := Nat.exists_eq_succ_of_ne_zero (Nat.ne_zero_of_lt hm)
    rw [List.range'_succ, scan, List.getElem?_cons_succ, ih _ (by omega), show w + (m + 1) = w + 1 + m by omega,
      List.range'_succ, carry, carry, List.foldl_cons]

/-- What the loop keeps holds of every entry. -/
theorem forall_mem_scan {step : σ → ℕ → σ × β} {P : σ → Prop} {Q : β → Prop} {is : List ℕ}
    (hstep : ∀ s, ∀ i ∈ is, P s → P (step s i).1 ∧ Q (step s i).2) {s : σ} (hs : P s) : ∀ b ∈ scan step s is, Q b := by
  induction is generalizing s with
  | nil => simp
  | cons i is ih =>
    obtain ⟨hnext, hout⟩ := hstep s i (by simp) hs
    intro b hb
    rcases List.mem_cons.1 hb with rfl | hb
    · exact hout
    · exact ih (fun s j hj => hstep s j (by simp [hj])) hnext b hb

variable {f : List α → List β} {g : List α → List γ}

theorem prefix_append (hf : Causal f) (l r : List α) : f l <+: f (l ++ r) := by
  induction r using List.reverseRecOn with
  | nil => simp
  | append_singleton r x ih =>
    rw [← List.append_assoc]
    exact ih.trans (hf.grows _ x)

theorem comp {h : List β → List γ} (hh : Causal h) (hf : Causal f) : Causal fun l => h (f l) where
  length l := by rw [hh.length, hf.length]
  grows l x := by
    obtain ⟨r, hr⟩ := hf.grows l x
    rw [← hr]
    exact hh.prefix_append _ _

theorem map (k : α → β) : Causal (List.map k) where
  length l := List.length_map k
  grows l x := by simp

/-- What is known of a series does not change. -/
theorem getD_append (hf : Causal f) {l : List α} {i : ℕ} (hi : i < l.length) (x : α) (d : β) :
    (f (l ++ [x])).getD i d = (f l).getD i d := by
  obtain ⟨r, hr⟩ := hf.grows l x
  rw [← hr, List.getD_append _ _ _ _ (by rw [hf.length]; exact hi)]

/-- A loop that starts at `w + 1`, after an entry that is worked out on its own. -/
theorem warm (w : ℕ) (fill : β) (first : List α → β) (start : List α → σ) (step : List α → σ → ℕ → σ × β)
    (hshort : ∀ l, l.length ≤ w → f l = List.replicate l.length fill)
    (hlong : ∀ l, w < l.length → f l = List.replicate w fill ++
      first l :: scan (step l) (start l) (List.range' (w + 1) (l.length - (w + 1))))
    (hfirst : ∀ l x, w < l.length → first (l ++ [x]) = first l)
    (hstart : ∀ l x, w < l.length → start (l ++ [x]) = start l)
    (hstep : ∀ l x i s, i < l.length → step (l ++ [x]) s i = step l s i) : Causal f where
  length l := by
    by_cases h : l.length ≤ w
    · rw [hshort l h, List.length_replicate]
    · rw [hlong l (by omega)]
      simp
      omega
  grows l x := by
    have hlength : (l ++ [x]).length = l.length + 1 := by simp
    by_cases h : l.length ≤ w
    · rw [hshort l h]
      by_cases h' : l.length + 1 ≤ w
      · rw [hshort (l ++ [x]) (by omega), hlength, List.replicate_succ']
        exact List.prefix_append _ _
      · rw [hlong (l ++ [x]) (by omega), show w = l.length by omega]
        exact List.prefix_append _ _
    · rw [hlong l (by omega), hlong (l ++ [x]) (by omega), List.prefix_append_right_inj, hfirst l x (by omega),
        hstart l x (by omega), hlength, show l.length + 1 - (w + 1) = l.length - (w + 1) + 1 by omega,
        List.range'_concat, List.cons_prefix_cons]
      refine ⟨rfl, ?_⟩
      rw [scan_congr (step l) (step (l ++ [x]))]
      · exact scan_prefix _ _ _ _
      · intro i hi s
        rw [List.mem_range'_1] at hi
        exact (hstep l x i s (by omega)).symm

/-- A loop over all places. -/
theorem loop_all {start : σ} (step : List α → σ → ℕ → σ × β)
    (hstep : ∀ l x i s, i < l.length → step (l ++ [x]) s i = step l s i) :
    Causal fun l => scan (step l) start (List.range l.length) where
  length l := by simp
  grows l x := by
    rw [List.length_append, List.length_singleton, List.range_succ,
      scan_congr (step l) (step (l ++ [x]))]
    · exact scan_prefix _ _ _ _
    · exact fun i hi s => (hstep l x i s (List.mem_range.1 hi)).symm

/-- A loop over all places that carries nothing. -/
theorem tabulate {entry : List α → ℕ → β} (hentry : ∀ l x i, i < l.length → entry (l ++ [x]) i = entry l i) :
    Causal fun l => (List.range l.length).map (entry l) := by
  simp only [← scan_unit]
  exact loop_all (fun l _ i => ((), entry l i)) fun l x i s hi => by simp only [hentry l x i hi]

/-- `let mut out = vec![fill; n]; for i in w..n { out[i] = .. }` -/
def fillFrom (fill : β) (w n : ℕ) (entry : ℕ → β) : List β := (List.range n).map fun i => if w ≤ i then entry i else fill

@[simp] theorem length_fillFrom (fill : β) (w n : ℕ) (entry : ℕ → β) : (fillFrom fill w n entry).length = n := by
  simp [fillFrom]

theorem fillFrom_short {fill : β} {w n : ℕ} (h : n ≤ w) (entry : ℕ → β) :
    fillFrom fill w n entry = List.replicate n fill := by
  refine List.eq_replicate_iff.2 ⟨length_fillFrom _ _ _ _, fun b hb => ?_⟩
  obtain ⟨i, hi, rfl⟩ := List.mem_map.1 hb
  rw [if_neg]
  have := List.mem_range.1 hi
  omega

theorem getElem?_fillFrom {fill : β} {w n i : ℕ} (h : i < n) (entry : ℕ → β) :
    (fillFrom fill w n entry)[i]? = some (if w ≤ i then entry i else fill) := by
  simp [fillFrom, h]

theorem windows (fill : β) (w : ℕ) {entry : List α → ℕ → β}
    (hentry : ∀ l x i, w ≤ i → i < l.length → entry (l ++ [x]) i = entry l i) :
    Causal fun l => fillFrom fill w l.length (entry l) := by
  refine tabulate fun l x i hi => ?_
  by_cases hw : w ≤ i
  · rw [hentry l x i hw hi]
  · rw [if_neg hw, if_neg hw]

theorem replicate (fill : β) : Causal fun l : List α => List.replicate l.length fill where
  length l := List.length_replicate
  grows l x := by
    rw [List.length_append, List.length_singleton, List.replicate_succ']
    exact List.prefix_append _ _

/-- A function of what comes after the first `k` entries. -/
theorem late (fill : β) (k : ℕ) {h : List γ → List β} (hh : Causal h) (hg : Causal g) :
    Causal fun l => List.replicate (min k l.length) fill ++ h ((g l).drop k) where
  length l := by
    rw [List.length_append, List.length_replicate, hh.length, List.length_drop, hg.length]
    omega
  grows l x := by
    have hlength := hg.length l
    obtain ⟨r, hr⟩ := hg.grows l x
    by_cases hk : l.length < k
    · have hnil : h [] = [] := List.eq_nil_of_length_eq_zero (hh.length [])
      rw [List.drop_eq_nil_of_le (by omega), hnil, List.append_nil, List.length_append, List.length_singleton,
        show min k l.length = l.length by omega, show min k (l.length + 1) = l.length + 1 by omega,
        List.replicate_succ', List.append_assoc]
      exact List.prefix_append _ _
    · rw [← hr, List.drop_append_of_le_length (by omega), List.length_append, List.length_singleton,
        show min k l.length = k by omega, show min k (l.length + 1) = k by omega, List.prefix_append_right_inj]
      exact hh.prefix_append _ _

end Causal
