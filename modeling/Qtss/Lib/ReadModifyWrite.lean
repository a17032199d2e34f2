import Mathlib.Data.List.Basic
import Mathlib.Logic.Function.Basic
import Qtss.Lib.Runs
/-!
# A value that is read and written back without a lock

Each writer reads the value, works out a new one and writes it, and what others wrote in between is gone. The value is
always that of some of the writers one after another, each on what the one before wrote (`value_eq`): the `chain`, which
leaves out exactly what was written over unread (`chain_eq_log_iff`).
-/
namespace ReadModifyWrite
open Runs
open scoped List

variable {ι V W : Type*}

/-- The value, whose writes it had, and what each writer has read, with the number of writes before. -/
structure Cell (ι V : Type*) where
  value : V
  log : List ι
  seen : ι → Option (V × ℕ)

inductive Access (ι : Type*) where
  | read (i : ι)
  | write (i : ι)

/-- A writer that has read nothing writes nothing. -/
def step [DecidableEq ι] (f : ι → V → V) (s : Cell ι V) : Access ι → Cell ι V
  | .read i => { s with seen := Function.update s.seen i (some (s.value, s.log.length)) }
  | .write i =>
    match s.seen i with
    | none => s
    | some (v, _) => ⟨f i v, s.log ++ [i], Function.update s.seen i none⟩

def start (v : V) : Cell ι V := ⟨v, [], fun _ => none⟩

/-- Nothing was written since the writer has read. -/
def Fresh (s : Cell ι V) : Access ι → Prop
  | .read _ => True
  | .write i => ∀ v n, s.seen i = some (v, n) → n = s.log.length

/-- The writer has read after the first `k` writes. -/
def Late (k : ℕ) (s : Cell ι V) : Access ι → Prop
  | .read _ => True
  | .write i => ∀ v n, s.seen i = some (v, n) → k ≤ n

def Cell.map (h : V → W) (s : Cell ι V) : Cell ι W := ⟨h s.value, s.log, fun i => (s.seen i).map fun p => (h p.1, p.2)⟩

@[simp] theorem map_start (h : V → W) (v : V) : (start v : Cell ι V).map h = start (h v) := rfl

/-- What is stored, and what is read, is some of the writes so far. -/
structure Ordered (s : Cell ι (List ι)) : Prop where
  value : s.value <+ s.log
  seen : ∀ i l n, s.seen i = some (l, n) → n ≤ s.log.length ∧ l <+ s.log.take n ∧ (n = s.log.length → l = s.value)

theorem ordered_start : Ordered (start [] : Cell ι (List ι)) := ⟨List.Sublist.slnil, by simp [start]⟩

variable [DecidableEq ι]

theorem map_step {f : ι → V → V} {g : ι → W → W} {h : V → W} (hfg : ∀ i v, h (f i v) = g i (h v)) (s : Cell ι V)
    (o : Access ι) : (step f s o).map h = step g (s.map h) o := by
  cases o with
  | read i =>
    simp only [step, Cell.map, Cell.mk.injEq, true_and]
    funext j
    by_cases hj : j = i
    · simp [hj]
    · simp [hj]
  | write i =>
    cases hi : s.seen i with
    | none => simp [step, Cell.map, hi]
    | some p =>
      simp only [step, Cell.map, hi, Option.map_some, hfg, Cell.mk.injEq, true_and]
      funext j
      by_cases hj : j = i
      · simp [hj]
      · simp [hj]

theorem map_run {f : ι → V → V} {g : ι → W → W} {h : V → W} (hfg : ∀ i v, h (f i v) = g i (h v)) (s : Cell ι V)
    (os : List (Access ι)) : (run (step f) s os).map h = run (step g) (s.map h) os := by
  induction os generalizing s with
  | nil => rfl
  | cons o os ih => rw [run_cons, run_cons, ih, map_step hfg]

omit [DecidableEq ι] in
@[simp] theorem fresh_map {h : V → W} {s : Cell ι V} {o : Access ι} : Fresh (s.map h) o ↔ Fresh s o := by
  cases o with
  | read i => exact Iff.rfl
  | write i =>
    cases hi : s.seen i with
    | none => simp [Fresh, Cell.map, hi]
    | some p =>
      obtain ⟨v, n⟩ := p
      simp [Fresh, Cell.map, hi]

theorem allSteps_map {f : ι → V → V} {g : ι → W → W} {h : V → W} (hfg : ∀ i v, h (f i v) = g i (h v)) (s : Cell ι V)
    (os : List (Access ι)) : AllSteps (step g) Fresh (s.map h) os ↔ AllSteps (step f) Fresh s os := by
  induction os generalizing s with
  | nil => simp [AllSteps]
  | cons o os ih => rw [AllSteps, AllSteps, fresh_map, ← map_step hfg, ih]

/-! ## The writes that count -/

/-- The same accesses with the list of the writes for the value. -/
def chained (os : List (Access ι)) : Cell ι (List ι) := run (step fun i l => l ++ [i]) (start []) os

def chain (os : List (Access ι)) : List ι := (chained os).value

omit [DecidableEq ι] in
theorem foldl_concat (f : ι → V → V) (v : V) (i : ι) (l : List ι) :
    (l ++ [i]).foldl (fun v i => f i v) v = f i (l.foldl (fun v i => f i v) v) := by
  simp

theorem map_chained (f : ι → V → V) (v : V) (os : List (Access ι)) :
    (chained os).map (fun l => l.foldl (fun v i => f i v) v) = run (step f) (start v) os := by
  rw [chained, map_run (foldl_concat f v), map_start, List.foldl_nil]

theorem value_eq (f : ι → V → V) (v : V) (os : List (Access ι)) :
    (run (step f) (start v) os).value = (chain os).foldl (fun v i => f i v) v := by
  rw [← map_chained]
  rfl

theorem log_eq (f : ι → V → V) (v : V) (os : List (Access ι)) : (run (step f) (start v) os).log = (chained os).log := by
  rw [← map_chained f v]
  rfl

theorem ordered_step {s : Cell ι (List ι)} (hs : Ordered s) (o : Access ι) :
    Ordered (step (fun i l => l ++ [i]) s o) := by
  cases o with
  | read i =>
    refine ⟨hs.value, fun j l n hj => ?_⟩
    by_cases hji : j = i
    · subst hji
      simp only [step, Function.update_self, Option.some.injEq, Prod.mk.injEq] at hj
      obtain ⟨rfl, rfl⟩ := hj
      exact ⟨Nat.le_refl _, by simpa [step] using hs.value, fun _ => rfl⟩
    · exact hs.seen j l n (by simpa [step, hji] using hj)
  | write i =>
    cases hi : s.seen i with
    | none => simpa [step, hi] using hs
    | some p =>
      obtain ⟨l, n⟩ := p
      obtain ⟨hn, hl, -⟩ := hs.seen i l n hi
      simp only [step, hi]
      refine ⟨(hl.trans (List.take_sublist _ _)).append (List.Sublist.refl _), fun j l' n' hj => ?_⟩
      by_cases hji : j = i
      · simp [hji] at hj
      · obtain ⟨hn', hl', -⟩ := hs.seen j l' n' (by simpa [hji] using hj)
        have hlong : n' < (s.log ++ [i]).length := by
          simp
          omega
        exact ⟨Nat.le_of_lt hlong, by rwa [List.take_append_of_le_length hn'], fun h => absurd h (Nat.ne_of_lt hlong)⟩

theorem ordered_chained (os : List (Access ι)) : Ordered (chained os) := by
  unfold chained
  exact run_invariant (J := Ordered) (K := fun _ => True) (fun _ o hs _ => ordered_step hs o) ordered_start fun _ _ => trivial

theorem chain_sublist (f : ι → V → V) (v : V) (os : List (Access ι)) : chain os <+ (run (step f) (start v) os).log := by
  rw [log_eq]
  exact (ordered_chained os).value

theorem step_fresh {s : Cell ι (List ι)} (hs : Ordered s) {o : Access ι} (ho : Fresh s o) (heq : s.value = s.log) :
    (step (fun i l => l ++ [i]) s o).value = (step (fun i l => l ++ [i]) s o).log := by
  cases o with
  | read i => exact heq
  | write i =>
    cases hi : s.seen i with
    | none => simpa [step, hi] using heq
    | some p =>
      obtain ⟨l, n⟩ := p
      have hl := (hs.seen i l n hi).2.2 (ho l n hi)
      simp [step, hi, hl, heq]

theorem step_stale {s : Cell ι (List ι)} (hs : Ordered s) {o : Access ι} (ho : ¬ Fresh s o) :
    (step (fun i l => l ++ [i]) s o).value.length < (step (fun i l => l ++ [i]) s o).log.length := by
  cases o with
  | read i => exact absurd trivial ho
  | write i =>
    simp only [Fresh, not_forall] at ho
    obtain ⟨l, n, hi, hne⟩ := ho
    obtain ⟨hn, hl, -⟩ := hs.seen i l n hi
    have hshort := hl.length_le
    rw [List.length_take] at hshort
    simp [step, hi]
    omega

/-- A write that is lost stays lost. -/
theorem step_behind {s : Cell ι (List ι)} (hs : Ordered s) (o : Access ι) (hlt : s.value.length < s.log.length) :
    (step (fun i l => l ++ [i]) s o).value.length < (step (fun i l => l ++ [i]) s o).log.length := by
  by_cases ho : Fresh s o
  · cases o with
    | read i => exact hlt
    | write i =>
      cases hi : s.seen i with
      | none => simpa [step, hi] using hlt
      | some p =>
        obtain ⟨l, n⟩ := p
        have hl := (hs.seen i l n hi).2.2 (ho l n hi)
        simpa [step, hi, hl] using hlt
  · exact step_stale hs ho

theorem value_eq_log_iff {s : Cell ι (List ι)} (hs : Ordered s) (heq : s.value = s.log) (os : List (Access ι)) :
    (run (step fun i l => l ++ [i]) s os).value = (run (step fun i l => l ++ [i]) s os).log ↔
      AllSteps (step fun i l => l ++ [i]) Fresh s os := by
  induction os generalizing s with
  | nil => simp [AllSteps, heq]
  | cons o os ih =>
    rw [run_cons, AllSteps]
    by_cases ho : Fresh s o
    · rw [ih (ordered_step hs o) (step_fresh hs ho heq)]
      simp [ho]
    · have hbehind : ∀ (os : List (Access ι)) (t : Cell ι (List ι)), Ordered t → t.value.length < t.log.length →
          (run (step fun i l => l ++ [i]) t os).value.length < (run (step fun i l => l ++ [i]) t os).log.length := by
        intro os
        induction os with
        | nil => exact fun t _ ht => ht
        | cons o os ih => exact fun t ht hlt => ih _ (ordered_step ht o) (step_behind ht o hlt)
      have hlt := hbehind os _ (ordered_step hs o) (step_stale hs ho)
      constructor
      · intro h
        exact absurd (congrArg List.length h) (Nat.ne_of_lt hlt)
      · exact fun h => absurd h.1 ho

/-- **Nothing is lost exactly where every writer wrote on what was written last.** -/
theorem chain_eq_log_iff (f : ι → V → V) (v : V) (os : List (Access ι)) :
    chain os = (run (step f) (start v) os).log ↔ AllSteps (step f) Fresh (start v) os := by
  have hmap := allSteps_map (foldl_concat f v) (start []) os
  rw [map_start, List.foldl_nil] at hmap
  rw [log_eq, hmap]
  exact value_eq_log_iff ordered_start rfl os

/-! ## What later writers leave as it is -/

/-- Of the value, and of what was read from the `k`-th write on. -/
def Keeps (P : V → Prop) (k : ℕ) (s : Cell ι V) : Prop :=
  P s.value ∧ k ≤ s.log.length ∧ ∀ i v n, s.seen i = some (v, n) → k ≤ n → P v

theorem keeps_step {f : ι → V → V} {P : V → Prop} {k : ℕ} {s : Cell ι V} {o : Access ι}
    (hf : ∀ i v, o = .write i → P v → P (f i v)) (hs : Keeps P k s) (ho : Late k s o) : Keeps P k (step f s o) := by
  obtain ⟨hvalue, hlog, hseen⟩ := hs
  cases o with
  | read i =>
    refine ⟨hvalue, hlog, fun j v n hj hn => ?_⟩
    by_cases hji : j = i
    · subst hji
      simp only [step, Function.update_self, Option.some.injEq, Prod.mk.injEq] at hj
      exact hj.1 ▸ hvalue
    · exact hseen j v n (by simpa [step, hji] using hj) hn
  | write i =>
    cases hi : s.seen i with
    | none =>
      simp only [step, hi]
      exact ⟨hvalue, hlog, hseen⟩
    | some p =>
      obtain ⟨v, n⟩ := p
      simp only [step, hi]
      refine ⟨hf i v rfl (hseen i v n hi (ho v n hi)), by simp; omega, fun j v' n' hj hn => ?_⟩
      by_cases hji : j = i
      · simp [hji] at hj
      · exact hseen j v' n' (by simpa [hji] using hj) hn

theorem keeps_run {f : ι → V → V} {P : V → Prop} {k : ℕ} {s : Cell ι V} {os : List (Access ι)}
    (hf : ∀ i v, .write i ∈ os → P v → P (f i v)) (hs : Keeps P k s) (hos : AllSteps (step f) (Late k) s os) :
    Keeps P k (run (step f) s os) := by
  induction os generalizing s with
  | nil => exact hs
  | cons o os ih =>
    refine ih (fun i v hi => hf i v (by simp [hi])) (keeps_step (fun i v hi => hf i v (by simp [hi])) hs hos.1) hos.2

theorem seen_le {f : ι → V → V} {v : V} {os : List (Access ι)} {i : ι} {u : V} {n : ℕ}
    (hi : (run (step f) (start v) os).seen i = some (u, n)) : n ≤ (run (step f) (start v) os).log.length := by
  rw [← map_chained f v] at hi ⊢
  obtain ⟨⟨l, m⟩, hl, hp⟩ := Option.map_eq_some_iff.1 hi
  obtain ⟨-, rfl⟩ := Prod.mk.inj hp
  exact ((ordered_chained os).seen i l m hl).1

/-- What was just written. -/
theorem keeps_written {f : ι → V → V} {v : V} {os : List (Access ι)} {i : ι} {u : V} {n : ℕ} {P : V → Prop}
    (hi : (run (step f) (start v) os).seen i = some (u, n)) (hP : P (f i u)) :
    Keeps P ((run (step f) (start v) os).log.length + 1) (run (step f) (start v) (os ++ [.write i])) := by
  rw [run_append, run_cons, run_nil, step, hi]
  refine ⟨hP, by simp, fun j w m hj hm => ?_⟩
  by_cases hji : j = i
  · simp [hji] at hj
  · have := seen_le (i := j) (by simpa [hji] using hj)
    omega

end ReadModifyWrite
