import Mathlib.Algebra.BigOperators.Group.List.Basic
/-!
# Runs of a deterministic step function

A component is a step function `step : S → O → S`; a run applies a list of operations. Two
questions come up for every component and are answered here once:

* `AllStates` / `AllSteps`: does a property hold of every state the run visits, and when?
  `allStates_iff_allSteps` reduces that to one step: if a good operation keeps a (stronger)
  invariant and a bad one breaks the property at once, the property holds in every visited state
  exactly when every operation of the run is good.
* `total`: a measure that a step changes by `δ` has changed by the sum of the `δ`s after a run
  (`measure_run`).
-/
namespace Runs

variable {S O : Type*} (step : S → O → S)

/-- The state after the operations `os`. -/
def run (s : S) (os : List O) : S := os.foldl step s

/-- `P` holds of every state the run visits, the first and the last included. -/
def AllStates (P : S → Prop) : S → List O → Prop
  | s, [] => P s
  | s, o :: os => P s ∧ AllStates P (step s o) os

/-- `G` holds of every operation of the run, at the state it is applied to. -/
def AllSteps (G : S → O → Prop) : S → List O → Prop
  | _, [] => True
  | s, o :: os => G s o ∧ AllSteps G (step s o) os

@[simp] theorem run_nil (s : S) : run step s [] = s := rfl

@[simp] theorem run_cons (s : S) (o : O) (os : List O) :
    run step s (o :: os) = run step (step s o) os := rfl

theorem run_append (s : S) (os os' : List O) : run step s (os ++ os') = run step (run step s os) os' :=
  List.foldl_append

instance AllStates.decidable {P : S → Prop} [DecidablePred P] :
    ∀ (s : S) (os : List O), Decidable (AllStates step P s os)
  | s, [] => inferInstanceAs (Decidable (P s))
  | s, o :: os =>
    have := AllStates.decidable (P := P) (step s o) os
    inferInstanceAs (Decidable (P s ∧ AllStates step P (step s o) os))

instance AllSteps.decidable {G : S → O → Prop} [∀ s o, Decidable (G s o)] :
    ∀ (s : S) (os : List O), Decidable (AllSteps step G s os)
  | _, [] => inferInstanceAs (Decidable True)
  | s, o :: os =>
    have := AllSteps.decidable (G := G) (step s o) os
    inferInstanceAs (Decidable (G s o ∧ AllSteps step G (step s o) os))

variable {step}

/-! ## Invariants -/

section invariants
variable {J P : S → Prop} {G : S → O → Prop} {K : O → Prop}

/-- An invariant of the steps holds after the run. -/
theorem run_invariant (hstep : ∀ s o, J s → K o → J (step s o)) {s : S} {os : List O}
    (hs : J s) (hok : ∀ o ∈ os, K o) : J (run step s os) := by
  induction os generalizing s with
  | nil => exact hs
  | cons o os ih =>
    obtain ⟨ho, hos⟩ := List.forall_mem_cons.1 hok
    rw [run_cons]
    exact ih (hstep s o hs ho) hos

theorem AllStates.head {s : S} {os : List O} (h : AllStates step P s os) : P s := by
  cases os with
  | nil => exact h
  | cons o os => exact h.1

theorem AllStates.last {s : S} {os : List O} (h : AllStates step P s os) : P (run step s os) := by
  induction os generalizing s with
  | nil => exact h
  | cons o os ih => exact ih h.2

theorem allSteps_of_forall (hG : ∀ s o, G s o) (s : S) (os : List O) : AllSteps step G s os := by
  induction os generalizing s with
  | nil => trivial
  | cons o os ih => exact ⟨hG s o, ih _⟩

/-- A condition on the operations alone. -/
theorem allSteps_forall_iff {s : S} {os : List O} :
    AllSteps step (fun _ o => K o) s os ↔ ∀ o ∈ os, K o := by
  induction os generalizing s with
  | nil => simp [AllSteps]
  | cons o os ih => rw [AllSteps, ih, List.forall_mem_cons]

theorem allSteps_append {s : S} {os os' : List O} :
    AllSteps step G s (os ++ os') ↔ AllSteps step G s os ∧ AllSteps step G (run step s os) os' := by
  induction os generalizing s with
  | nil => simp [AllSteps]
  | cons o os ih => rw [List.cons_append, AllSteps, AllSteps, ih, run_cons, and_assoc]

theorem allSteps_and {G' : S → O → Prop} {s : S} {os : List O} :
    AllSteps step (fun s o => G s o ∧ G' s o) s os ↔ AllSteps step G s os ∧ AllSteps step G' s os := by
  induction os generalizing s with
  | nil => simp [AllSteps]
  | cons o os ih => rw [AllSteps, AllSteps, AllSteps, ih, and_and_and_comm]

/-- A property that good operations keep holds in every state of a run of good operations. -/
theorem allStates_of_allSteps (good : ∀ s o, J s → K o → G s o → J (step s o)) {s : S}
    {os : List O} (hs : J s) (hok : ∀ o ∈ os, K o) (h : AllSteps step G s os) :
    AllStates step J s os := by
  induction os generalizing s with
  | nil => exact hs
  | cons o os ih =>
    obtain ⟨hg, hgs⟩ := h
    obtain ⟨ho, hos⟩ := List.forall_mem_cons.1 hok
    exact ⟨hs, ih (good s o hs ho hg) hos hgs⟩

/-- What every step keeps holds in every state. -/
theorem allStates_of_step (hstep : ∀ s o, J s → J (step s o)) {s : S} (hs : J s) (os : List O) :
    AllStates step J s os := by
  induction os generalizing s with
  | nil => exact hs
  | cons o os ih => exact ⟨hs, ih (hstep s o hs)⟩

theorem AllStates.imp {Q : S → Prop} (hPQ : ∀ s, P s → Q s) {s : S} {os : List O}
    (h : AllStates step P s os) : AllStates step Q s os := by
  induction os generalizing s with
  | nil => exact hPQ s h
  | cons o os ih => exact ⟨hPQ s h.1, ih h.2⟩

/-- **One step decides the run.** `J` is the invariant that carries the induction, `P` what is
seen of it. If a good operation keeps `J` and a bad one breaks `P`, then `P` holds in every
visited state exactly when every operation is good where it is applied. -/
theorem allStates_iff_allSteps (hJP : ∀ s, J s → P s)
    (good : ∀ s o, J s → K o → G s o → J (step s o))
    (bad : ∀ s o, J s → K o → ¬ G s o → ¬ P (step s o)) {s : S} {os : List O} (hs : J s)
    (hok : ∀ o ∈ os, K o) : AllStates step P s os ↔ AllSteps step G s os := by
  induction os generalizing s with
  | nil => simp [AllStates, AllSteps, hJP s hs]
  | cons o os ih =>
    obtain ⟨ho, hos⟩ := List.forall_mem_cons.1 hok
    simp only [AllStates, AllSteps, hJP s hs, true_and]
    by_cases hg : G s o
    · simp only [hg, true_and]
      exact ih (good s o hs ho hg) hos
    · simp only [hg, false_and, iff_false]
      intro h
      exact bad s o hs ho hg h.head

/-- A property that a step keeps exactly when its condition holds, and that nothing mends, holds after a
run exactly when it held before and every step met its condition. -/
theorem run_iff_allSteps (hstep : ∀ s o, J s → K o → J (step s o))
    (hP : ∀ s o, J s → K o → (P (step s o) ↔ P s ∧ G s o)) {s : S} {os : List O} (hs : J s)
    (hok : ∀ o ∈ os, K o) : P (run step s os) ↔ P s ∧ AllSteps step G s os := by
  induction os generalizing s with
  | nil => simp [AllSteps]
  | cons o os ih =>
    obtain ⟨ho, hos⟩ := List.forall_mem_cons.1 hok
    rw [run_cons, ih (hstep s o hs ho) hos, hP s o hs ho, AllSteps, and_assoc]

/-- The same for every state of the run. -/
theorem allStates_iff_allSteps_of_iff (hstep : ∀ s o, J s → K o → J (step s o))
    (hP : ∀ s o, J s → K o → (P (step s o) ↔ P s ∧ G s o)) {s : S} {os : List O} (hs : J s)
    (hok : ∀ o ∈ os, K o) (hp : P s) : AllStates step P s os ↔ AllSteps step G s os := by
  apply allStates_iff_allSteps (J := fun s => J s ∧ P s) (K := K)
  · exact fun s h => h.2
  · exact fun s o h ho hg => ⟨hstep s o h.1 ho, (hP s o h.1 ho).2 ⟨h.2, hg⟩⟩
  · exact fun s o h ho hg hp => hg ((hP s o h.1 ho).1 hp).2
  · exact ⟨hs, hp⟩
  · exact hok

/-- Under an invariant that good operations keep, they have whatever the invariant gives them. -/
theorem allSteps_of_invariant {G' : S → O → Prop}
    (good : ∀ s o, J s → K o → G s o → J (step s o) ∧ G' s o) {s : S} {os : List O} (hs : J s)
    (hok : ∀ o ∈ os, K o) (h : AllSteps step G s os) : AllSteps step G' s os := by
  induction os generalizing s with
  | nil => trivial
  | cons o os ih =>
    obtain ⟨hg, hgs⟩ := h
    obtain ⟨ho, hos⟩ := List.forall_mem_cons.1 hok
    obtain ⟨hJ, hg'⟩ := good s o hs ho hg
    exact ⟨hg', ih hJ hos hgs⟩

/-- Step conditions may be exchanged under an invariant of the run. -/
theorem allSteps_congr {G' : S → O → Prop} (hstep : ∀ s o, J s → K o → J (step s o))
    (hG : ∀ s o, J s → K o → (G s o ↔ G' s o)) {s : S} {os : List O} (hs : J s)
    (hok : ∀ o ∈ os, K o) : AllSteps step G s os ↔ AllSteps step G' s os := by
  induction os generalizing s with
  | nil => rfl
  | cons o os ih =>
    obtain ⟨ho, hos⟩ := List.forall_mem_cons.1 hok
    simp only [AllSteps, hG s o hs ho, ih (hstep s o hs ho) hos]

end invariants

/-! ## Simulation -/

/-- If every step of the run is matched by a step of `step'` under `abs`, the whole run is. -/
theorem run_simulates {T O' : Type*} {step' : T → O' → T} {abs : S → T} {op : O → O'} {s : S}
    {os : List O} (h : AllSteps step (fun s o => abs (step s o) = step' (abs s) (op o)) s os) :
    abs (run step s os) = run step' (abs s) (os.map op) := by
  induction os generalizing s with
  | nil => rfl
  | cons o os ih =>
    obtain ⟨ho, hos⟩ := h
    rw [run_cons, List.map_cons, run_cons, ih hos, ho]

/-- **Isolation.** If only some of the operations show in a view of the state, and these act on the view
alone, then the view of a run is the run of those operations. -/
theorem run_view {V : Type*} {view : S → V} {vstep : V → O → V} {own : O → Bool} {K : O → Prop}
    (hown : ∀ s o, K o → own o = true → view (step s o) = vstep (view s) o)
    (hother : ∀ s o, K o → own o = false → view (step s o) = view s) {s : S} {os : List O}
    (hok : ∀ o ∈ os, K o) : view (run step s os) = run vstep (view s) (os.filter own) := by
  induction os generalizing s with
  | nil => rfl
  | cons o os ih =>
    obtain ⟨ho, hos⟩ := List.forall_mem_cons.1 hok
    rw [run_cons, ih hos]
    cases hmine : own o with
    | true => rw [hown s o ho hmine, List.filter_cons_of_pos hmine, run_cons]
    | false => rw [hother s o ho hmine, List.filter_cons_of_neg (by simp [hmine])]

/-- The same where an operation acts on the view as another one that is read off it. -/
theorem run_filterMap {V O' : Type*} {view : S → V} {vstep : V → O' → V} {op : O → Option O'}
    (hview : ∀ s o, view (step s o) = (op o).elim (view s) (vstep (view s))) (s : S) (os : List O) :
    view (run step s os) = run vstep (view s) (os.filterMap op) := by
  induction os generalizing s with
  | nil => rfl
  | cons o os ih =>
    have ho := hview s o
    rw [run_cons, ih, List.filterMap_cons]
    cases hop : op o with
    | none => rw [ho, hop, Option.elim_none]
    | some o' => rw [ho, hop, Option.elim_some, run_cons]

/-! ## Measures -/

section measures
variable {A : Type*} [AddMonoid A] {J : S → Prop} {K : O → Prop}

/-- The sum of `δ` over the operations of a run, each at the state it is applied to. -/
def total (step : S → O → S) (δ : S → O → A) : S → List O → A
  | _, [] => 0
  | s, o :: os => δ s o + total step δ (step s o) os

/-- A measure that every step changes by `δ` changes by `total δ` over a run. -/
theorem measure_run {E : S → A} {δ : S → O → A} (hstep : ∀ s o, J s → K o → J (step s o))
    (hE : ∀ s o, J s → K o → E (step s o) = E s + δ s o) {s : S} {os : List O} (hs : J s)
    (hok : ∀ o ∈ os, K o) : E (run step s os) = E s + total step δ s os := by
  induction os generalizing s with
  | nil => simp [total]
  | cons o os ih =>
    obtain ⟨ho, hos⟩ := List.forall_mem_cons.1 hok
    rw [run_cons, ih (hstep s o hs ho) hos, hE s o hs ho, total, add_assoc]

theorem measure_run_all {E : S → A} {δ : S → O → A} (hE : ∀ s o, E (step s o) = E s + δ s o) (s : S)
    (os : List O) : E (run step s os) = E s + total step δ s os :=
  measure_run (J := fun _ => True) (fun _ _ _ ho => ho) (fun s o _ _ => hE s o) trivial
    fun _ _ => trivial

/-- What does not depend on the state is summed over the operations. -/
theorem total_ops (f : O → A) (s : S) (os : List O) : total step (fun _ o => f o) s os = (os.map f).sum := by
  induction os generalizing s with
  | nil => simp [total]
  | cons o os ih => rw [total, ih, List.map_cons, List.sum_cons]

theorem total_sub {B : Type*} [AddCommGroup B] (δ ε : S → O → B) (s : S) (os : List O) :
    total step (fun s o => δ s o - ε s o) s os = total step δ s os - total step ε s os := by
  induction os generalizing s with
  | nil => simp [total]
  | cons o os ih => rw [total, total, total, ih, add_sub_add_comm]

end measures

end Runs
