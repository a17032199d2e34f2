import Mathlib.Data.List.Chain
import Qtss.Config.Store
import Qtss.Lib.Runs
/-
# Concurrent writers of one key and scope (`qtss-config/src/store.rs:147-229`)

`set_json` is four statements in one READ COMMITTED transaction. `SELECT … FOR UPDATE` locks the row it finds;
where there is none it locks nothing, and the call goes on to create version 1 whatever is committed meanwhile.

| here | there |
| --- | --- |
| `SetCall`        | the arguments the statements depend on: the value and `expected_version` |
| `SetPhase`       | how far a call's transaction is |
| `Slot`           | the row as committed, who has its lock (or an uncommitted insert of it), the calls, and the commits so far |
| `step`           | a statement of a call; one that has to wait for the lock changes nothing |

A statement that fails, a version conflict and a crash end the transaction and release the lock. The audit rows of
the committed calls are in the log, in commit order.
-/

namespace Qtss.Config
open Runs

structure SetCall (V : Type) where
  value : V
  expectedVersion : Option ℤ

inductive SetPhase (V : Type) where
  | begun
  | planned (plan : WritePlan V)
  | written (plan : WritePlan V)
  | audited (plan : WritePlan V)
  | done (version : ℤ)
  | failed

/-- A committed call with its audit row (`plan.oldValue`, `newValue`), and the version it replaced. -/
structure Committed (V : Type) where
  call : ℕ
  plan : WritePlan V
  newValue : V
  replaced : Option ℤ

structure Slot (V : Type) where
  row : Option (ℤ × V)
  holder : Option ℕ
  phase : ℕ → SetPhase V
  log : List (Committed V)

def Slot.start {V : Type} : Slot V := ⟨none, none, fun _ => .begun, []⟩

inductive Statement where
  | select (i : ℕ)
  | upsert (i : ℕ)
  | audit (i : ℕ)
  | commit (i : ℕ)
  | fail (i : ℕ)

namespace Slot
variable {V : Type}

def setPhase (s : Slot V) (i : ℕ) (phase : SetPhase V) : Slot V :=
  { s with phase := Function.update s.phase i phase }

/-- The transaction of `i` is over without effect. -/
def rollback (s : Slot V) (i : ℕ) : Slot V :=
  { s with holder := if s.holder = some i then none else s.holder }.setPhase i .failed

/-- The read, and what follows from it in the process. -/
def select (key : String) (calls : ℕ → SetCall V) (s : Slot V) (i : ℕ) : Slot V :=
  match s.row with
  | none =>
    match planWrite key (calls i).expectedVersion none with
    | .error _ => s.rollback i
    | .ok plan => s.setPhase i (.planned plan)
  | some row =>
    if s.holder.isSome then s
    else
      match planWrite key (calls i).expectedVersion (some row) with
      | .error _ => s.rollback i
      | .ok plan => { s with holder := some i }.setPhase i (.planned plan)

def committedBy (calls : ℕ → SetCall V) (s : Slot V) (i : ℕ) (plan : WritePlan V) : Slot V where
  row := some (plan.newVersion, (calls i).value)
  holder := none
  phase := Function.update s.phase i (.done plan.newVersion)
  log := s.log ++ [⟨i, plan, (calls i).value, s.row.map (·.1)⟩]

def step (key : String) (calls : ℕ → SetCall V) (s : Slot V) : Statement → Slot V
  | .select i =>
    match s.phase i with
    | .begun => s.select key calls i
    | _ => s
  | .upsert i =>
    match s.phase i with
    | .planned plan =>
      if s.holder = none ∨ s.holder = some i then { s with holder := some i }.setPhase i (.written plan) else s
    | _ => s
  | .audit i =>
    match s.phase i with
    | .written plan => s.setPhase i (.audited plan)
    | _ => s
  | .commit i =>
    match s.phase i with
    | .audited plan =>
      s.committedBy calls i plan
    | _ => s
  | .fail i =>
    match s.phase i with
    | .done _ => s
    | _ => s.rollback i

/-! ## What the log owes -/

/-- The versions in commit order count up, each audit row starts from the value the previous one left, and a call
with an expected version replaced that version. -/
structure Serial (calls : ℕ → SetCall V) (s : Slot V) : Prop where
  consecutive : s.log.IsChain fun a b => b.plan.newVersion = a.plan.newVersion + 1
  distinct : (s.log.map (·.plan.newVersion)).Nodup
  audits : s.log.IsChain fun a b => b.plan.oldValue = some a.newValue
  expected : ∀ c ∈ s.log, ∀ v ∈ (calls c.call).expectedVersion, c.replaced = some v

/-- The step condition. A call that found no row commits only while there still is none, and not if it was given an
expected version; and the last `i32` is not counted up. -/
def FreshCreate (calls : ℕ → SetCall V) (s : Slot V) : Statement → Prop
  | .commit i => ∀ plan, s.phase i = .audited plan →
    (plan.oldValue = none → s.row = none ∧ (calls i).expectedVersion = none)
      ∧ ∀ row ∈ s.row, row.1 ≠ 2 ^ 31 - 1
  | _ => True

/-! ## The lock -/

/-- The plan a transaction is carrying out. -/
def plan? : SetPhase V → Option (WritePlan V)
  | .planned plan | .written plan | .audited plan => some plan
  | _ => none

/-- The transaction has the lock. -/
def Locks : SetPhase V → Prop
  | .planned plan => plan.oldValue.isSome
  | .written _ | .audited _ => True
  | _ => False

variable {key : String} {calls : ℕ → SetCall V} {s : Slot V} {i j : ℕ} {phase : SetPhase V} {plan : WritePlan V}
  {op : Statement}

@[simp] theorem setPhase_phase : (s.setPhase i phase).phase j = if j = i then phase else s.phase j := by
  simp only [setPhase, Function.update_apply]

@[simp] theorem setPhase_row : (s.setPhase i phase).row = s.row := rfl

@[simp] theorem setPhase_holder : (s.setPhase i phase).holder = s.holder := rfl

@[simp] theorem setPhase_log : (s.setPhase i phase).log = s.log := rfl

structure Inv (key : String) (calls : ℕ → SetCall V) (s : Slot V) : Prop where
  locks : ∀ i, Locks (s.phase i) → s.holder = some i
  /-- A plan creates, or updates the row as it is. -/
  plans : ∀ i plan, plan? (s.phase i) = some plan →
    plan.oldValue = none ∧ plan.newVersion = 1
      ∨ ∃ row, s.row = some row ∧ planWrite key (calls i).expectedVersion (some row) = .ok plan
  last : s.row = s.log.getLast?.map fun c => (c.plan.newVersion, c.newValue)

theorem planWrite_some {expected : Option ℤ} {row : ℤ × V} (h : planWrite key expected (some row) = .ok plan) :
    plan.oldValue = some row.2 ∧ plan.newVersion = nextVersion row.1 ∧ ∀ v ∈ expected, v = row.1 := by
  unfold planWrite at h
  split at h
  · rename_i found old heq
    obtain rfl := Option.some.inj heq
    split at h
    · cases h
    · rename_i hsame
      obtain rfl := Except.ok.inj h
      exact ⟨rfl, rfl, fun v hv => by rw [← Option.some.inj hv]; exact not_not.1 hsame⟩
  · rename_i heq
    obtain rfl := Option.some.inj heq
    obtain rfl := Except.ok.inj h
    exact ⟨rfl, rfl, nofun⟩
  · rename_i heq
    cases heq

theorem planWrite_none {expected : Option ℤ} :
    planWrite key expected (none : Option (ℤ × V)) = .ok ⟨"create", none, 1⟩ := by
  cases expected <;> rfl

/-- A transaction that goes on, or ends, without a commit. -/
theorem Inv.move (h : s.Inv key calls) {holder : Option ℕ}
    (hother : ∀ j, j ≠ i → s.holder = some j → holder = some j) (hlocks : Locks phase → holder = some i)
    (hplan : ∀ plan, plan? phase = some plan → plan.oldValue = none ∧ plan.newVersion = 1
      ∨ ∃ row, s.row = some row ∧ planWrite key (calls i).expectedVersion (some row) = .ok plan) :
    Inv key calls ({ s with holder := holder }.setPhase i phase) where
  locks j hj := by
    rw [setPhase_phase] at hj
    split at hj
    · rename_i heq; rw [heq]; exact hlocks hj
    · rename_i hne; exact hother j hne (h.locks j hj)
  plans j plan hj := by
    rw [setPhase_phase] at hj
    split at hj
    · rename_i heq; rw [heq]; exact hplan plan hj
    · exact h.plans j plan hj
  last := h.last

theorem Inv.rollback (h : s.Inv key calls) (i : ℕ) : (s.rollback i).Inv key calls := by
  refine h.move (fun j hne hj => ?_) nofun nofun
  rw [if_neg, hj]
  rw [hj]
  exact fun heq => hne (Option.some.inj heq)

/-- The committing call has the lock, so every other plan is to create. -/
theorem Inv.committedBy (h : s.Inv key calls) (hi : s.phase i = .audited plan) :
    (s.committedBy calls i plan).Inv key calls := by
  have hholder : s.holder = some i := h.locks i (by rw [hi]; trivial)
  have hother : ∀ j, j ≠ i → ¬ Locks (s.phase j) :=
    fun j hne hj => hne (Option.some.inj ((h.locks j hj).symm.trans hholder))
  have hphase : ∀ j, (s.committedBy calls i plan).phase j =
      if j = i then .done plan.newVersion else s.phase j := by
    intro j
    simp only [Slot.committedBy, Function.update_apply]
  constructor
  · intro j hj
    rw [hphase] at hj
    split at hj
    · cases hj
    · rename_i hne; exact absurd hj (hother j hne)
  · intro j plan' hj
    rw [hphase] at hj
    split at hj
    · cases hj
    · rename_i hne
      rcases h.plans j plan' hj with hcreate | ⟨row, -, hrow⟩
      · exact .inl hcreate
      · -- an update would have the lock
        refine absurd ?_ (hother j hne)
        have hold : plan'.oldValue.isSome := by rw [(planWrite_some hrow).1]; rfl
        cases hp : s.phase j with
        | planned p => rw [hp] at hj; rw [Option.some.inj hj]; exact hold
        | written p | audited p => trivial
        | begun | done v | failed => rw [hp] at hj; cases hj
  · simp only [Slot.committedBy, List.getLast?_append, List.getLast?_singleton, Option.some_or,
      Option.map_some]

/-- Nothing is committed. -/
structure Quiet (key : String) (calls : ℕ → SetCall V) (s s' : Slot V) : Prop where
  log : s'.log = s.log
  inv : s'.Inv key calls

theorem Inv.quiet_select (h : s.Inv key calls) (i : ℕ) :
    Quiet key calls s (s.select key calls i) := by
  unfold select
  split
  · rw [planWrite_none]
    exact ⟨rfl, h.move (fun _ _ hj => hj) nofun fun plan hplan => .inl (Option.some.inj hplan ▸ ⟨rfl, rfl⟩)⟩
  · rename_i row hrow
    split
    · exact ⟨rfl, h⟩
    · rename_i hfree
      have hfree : s.holder = none := by simpa using hfree
      split
      · exact ⟨rfl, h.rollback i⟩
      · rename_i plan hplan
        refine ⟨rfl, h.move (fun j _ hj => ?_) (fun _ => rfl) fun plan' hplan' => .inr ⟨row, hrow, ?_⟩⟩
        · rw [hfree] at hj; cases hj
        · rw [← Option.some.inj hplan']; exact hplan

theorem Inv.quiet_upsert (h : s.Inv key calls) (hi : s.phase i = .planned plan)
    (hfree : s.holder = none ∨ s.holder = some i) :
    Quiet key calls s ({ s with holder := some i }.setPhase i (.written plan)) := by
  refine ⟨rfl, h.move (fun j hne hj => ?_) (fun _ => rfl) fun plan' hplan' => ?_⟩
  · rcases hfree with hfree | hfree
    · rw [hfree] at hj; cases hj
    · exact absurd (Option.some.inj (hj.symm.trans hfree)) hne
  · exact h.plans i plan' (by rw [hi]; exact hplan')

theorem Inv.quiet_audit (h : s.Inv key calls) (hi : s.phase i = .written plan) :
    Quiet key calls s (s.setPhase i (.audited plan)) :=
  ⟨rfl, h.move (fun _ _ hj => hj) (fun _ => h.locks i (by rw [hi]; trivial)) fun plan' hplan' =>
    h.plans i plan' (by rw [hi]; exact hplan')⟩

/-- A step commits a call, or nothing. -/
theorem step_cases (h : s.Inv key calls) (op : Statement) :
    (Quiet key calls s (s.step key calls op) ∧ ∀ i, op = .commit i → ∀ plan, s.phase i ≠ .audited plan)
      ∨ ∃ i plan, op = .commit i ∧ s.phase i = .audited plan
        ∧ s.step key calls op = s.committedBy calls i plan := by
  have hquiet : Quiet key calls s s := ⟨rfl, h⟩
  cases op with
  | select i =>
    refine .inl ⟨?_, nofun⟩
    simp only [step]
    split
    · exact h.quiet_select i
    · exact hquiet
  | upsert i =>
    refine .inl ⟨?_, nofun⟩
    simp only [step]
    split
    · rename_i plan hi
      split
      · rename_i hfree; exact h.quiet_upsert hi hfree
      · exact hquiet
    · exact hquiet
  | audit i =>
    refine .inl ⟨?_, nofun⟩
    simp only [step]
    split
    · rename_i plan hi; exact h.quiet_audit hi
    · exact hquiet
  | commit i =>
    simp only [step]
    split
    · rename_i plan hi; exact .inr ⟨i, plan, rfl, hi, rfl⟩
    · rename_i hi
      refine .inl ⟨hquiet, fun j hj plan => ?_⟩
      cases hj
      exact hi plan
  | fail i =>
    refine .inl ⟨?_, nofun⟩
    simp only [step]
    split
    · exact hquiet
    · exact ⟨rfl, h.rollback i⟩

theorem inv_step (h : s.Inv key calls) (op : Statement) : (s.step key calls op).Inv key calls := by
  rcases step_cases h op with ⟨hquiet, -⟩ | ⟨i, plan, -, hi, hstep⟩
  · exact hquiet.inv
  · rw [hstep]; exact h.committedBy hi

theorem inv_start : (start : Slot V).Inv key calls where
  locks _ hi := by cases hi
  plans _ _ hi := by cases hi
  last := rfl

/-! ## When the commits are serial -/

theorem nodup_of_consecutive {l : List (Committed V)}
    (h : l.IsChain fun a b => b.plan.newVersion = a.plan.newVersion + 1) :
    (l.map (·.plan.newVersion)).Nodup := by
  have hlt : (l.map (·.plan.newVersion)).IsChain (· < ·) :=
    (List.isChain_map _).2 (h.imp fun a b hab => by omega)
  exact (List.isChain_iff_pairwise.1 hlt).imp fun hab => ne_of_lt hab

/-- The first commit finds an empty log. -/
theorem serial_first_iff (h : s.Inv key calls) (hrow : s.row = none) :
    (s.committedBy calls i plan).Serial calls ↔ s.Serial calls ∧ (calls i).expectedVersion = none := by
  have hlog : s.log = [] := by
    have hlast := h.last
    rw [hrow, eq_comm, Option.map_eq_none_iff, List.getLast?_eq_none_iff] at hlast
    exact hlast
  have hempty : s.Serial calls := by
    constructor <;> simp [hlog]
  rw [and_iff_right hempty]
  constructor
  · intro hserial
    by_contra hexpected
    obtain ⟨v, hv⟩ := Option.ne_none_iff_exists'.1 hexpected
    have := hserial.expected _ (List.mem_append_right _ (List.mem_singleton_self _)) v hv
    rw [hrow] at this
    cases this
  · intro hexpected
    constructor <;> simp [committedBy, hlog, hexpected]

/-- A later commit has to be an update of the last one. -/
theorem serial_next_iff (h : s.Inv key calls) (hi : s.phase i = .audited plan) {row : ℤ × V}
    (hrow : s.row = some row) : (s.committedBy calls i plan).Serial calls ↔
      s.Serial calls ∧ plan.oldValue ≠ none ∧ row.1 ≠ 2 ^ 31 - 1 := by
  have hlast := h.last
  rw [hrow, eq_comm, Option.map_eq_some_iff] at hlast
  obtain ⟨c, hc, rfl⟩ := hlast
  have hupdate : plan.oldValue ≠ none → plan.oldValue = some c.newValue
      ∧ plan.newVersion = nextVersion c.plan.newVersion
      ∧ ∀ v ∈ (calls i).expectedVersion, v = c.plan.newVersion := by
    intro hold
    rcases h.plans i plan (by rw [hi]; rfl) with ⟨hnone, -⟩ | ⟨row, hrow', hplan⟩
    · exact absurd hnone hold
    · obtain rfl := Option.some.inj (hrow'.symm.trans hrow)
      exact planWrite_some hplan
  constructor
  · intro hserial
    obtain ⟨hleft, -, hversion⟩ := List.isChain_append.1 hserial.consecutive
    obtain ⟨hleft', -, hvalue⟩ := List.isChain_append.1 hserial.audits
    have hversion := hversion c hc _ rfl
    have hvalue := hvalue c hc _ rfl
    simp only at hversion hvalue
    have hold : plan.oldValue ≠ none := by rw [hvalue]; exact nofun
    refine ⟨⟨hleft, nodup_of_consecutive hleft, hleft', fun c' hc' => ?_⟩, hold, fun hmax => ?_⟩
    · exact hserial.expected c' (List.mem_append_left _ hc')
    · rw [(hupdate hold).2.1, nextVersion, if_pos hmax] at hversion
      simp only at hmax
      omega
  · rintro ⟨hserial, hold, hmax⟩
    obtain ⟨hvalue, hversion, hexpected⟩ := hupdate hold
    rw [nextVersion, if_neg hmax] at hversion
    have hconsecutive : (s.committedBy calls i plan).log.IsChain
        fun a b => b.plan.newVersion = a.plan.newVersion + 1 := by
      refine hserial.consecutive.append (.singleton _) fun a ha b hb => ?_
      obtain rfl := Option.some.inj (ha.symm.trans hc)
      obtain rfl := Option.some.inj hb
      exact hversion
    refine ⟨hconsecutive, nodup_of_consecutive hconsecutive, ?_, fun c' hc' v hv => ?_⟩
    · refine hserial.audits.append (.singleton _) fun a ha b hb => ?_
      obtain rfl := Option.some.inj (ha.symm.trans hc)
      obtain rfl := Option.some.inj hb
      exact hvalue
    · rcases List.mem_append.1 hc' with hc' | hc'
      · exact hserial.expected c' hc' v hv
      · obtain rfl := List.mem_singleton.1 hc'
        rw [hexpected v hv, hrow]
        rfl

/-- **One commit** keeps the log serial exactly when it is fresh. -/
theorem serial_committedBy_iff (h : s.Inv key calls) (hi : s.phase i = .audited plan) :
    (s.committedBy calls i plan).Serial calls ↔ s.Serial calls ∧ s.FreshCreate calls (.commit i) := by
  have hfresh : s.FreshCreate calls (.commit i) ↔ (plan.oldValue = none → s.row = none
      ∧ (calls i).expectedVersion = none) ∧ ∀ row ∈ s.row, row.1 ≠ 2 ^ 31 - 1 :=
    ⟨fun hf => hf plan hi, fun hf plan' hi' => by rwa [SetPhase.audited.inj (hi'.symm.trans hi)]⟩
  rw [hfresh]
  cases hrow : s.row with
  | none =>
    have hcreate : plan.oldValue = none := by
      rcases h.plans i plan (by rw [hi]; rfl) with ⟨hnone, -⟩ | ⟨row, hrow', -⟩
      · exact hnone
      · rw [hrow] at hrow'; cases hrow'
    rw [serial_first_iff h hrow]
    simp [hcreate]
  | some row =>
    rw [serial_next_iff h hi hrow]
    simp

/-- **Concurrent writers**: in every state of an interleaving the log is serial exactly when no call commits that
found no row while one had come about, or that had an expected version and found none. -/
theorem serial_iff (key : String) (calls : ℕ → SetCall V) (ops : List Statement) :
    AllStates (step key calls) (Serial calls) start ops ↔ AllSteps (step key calls) (FreshCreate calls) start ops := by
  refine allStates_iff_allSteps_of_iff (J := Inv key calls) (K := fun _ => True)
    (fun s op h _ => inv_step h op) (fun s op h _ => ?_) inv_start (fun _ _ => trivial)
    (by constructor <;> simp [start])
  rcases step_cases h op with ⟨hquiet, hcommit⟩ | ⟨i, plan, rfl, hi, hstep⟩
  · have hfresh : s.FreshCreate calls op := by
      cases op with
      | commit i => exact fun plan hi => absurd hi (hcommit i rfl plan)
      | _ => trivial
    have hsame : (s.step key calls op).Serial calls ↔ s.Serial calls := by
      constructor <;> rintro ⟨h1, h2, h3, h4⟩
      · rw [hquiet.log] at h1 h2 h3 h4; exact ⟨h1, h2, h3, h4⟩
      · constructor <;> rw [hquiet.log] <;> assumption
    rw [hsame, and_iff_left hfresh]
  · rw [hstep]
    exact serial_committedBy_iff h hi

/-- Call `i` writes the value `i`. -/
def plainCalls (expectedVersion : Option ℤ) (i : ℕ) : SetCall ℕ := ⟨i, expectedVersion⟩

/-- Calls 0 and 1 both find no row, and call 1 overwrites what call 0 has committed, again as version 1. A call with
expected version 5 creates the row. -/
theorem lost_creation :
    ((run (step "risk.cap" (plainCalls none)) start [.select 0, .select 1, .upsert 0, .audit 0, .commit 0,
        .upsert 1, .audit 1, .commit 1]).log.map fun c => (c.plan.newVersion, c.plan.oldValue, c.newValue)) =
      [(1, none, 0), (1, none, 1)]
    ∧ ¬ (run (step "risk.cap" (plainCalls none)) start [.select 0, .select 1, .upsert 0, .audit 0, .commit 0,
        .upsert 1, .audit 1, .commit 1]).Serial (plainCalls none)
    ∧ ¬ (run (step "risk.cap" (plainCalls (some 5))) start [.select 0, .upsert 0, .audit 0, .commit 0]).Serial
        (plainCalls (some 5)) := by
  refine ⟨by decide +kernel, fun h => ?_, fun h => ?_⟩
  · exact absurd h.distinct (by decide +kernel)
  · have hlog : ((run (step "risk.cap" (plainCalls (some 5))) start [.select 0, .upsert 0, .audit 0, .commit 0]).log
        |>.all fun c => c.replaced.isNone && c.call == 0) = true
      ∧ (run (step "risk.cap" (plainCalls (some 5))) start [.select 0, .upsert 0, .audit 0, .commit 0]).log.length
        = 1 := by decide +kernel
    obtain ⟨c, hc⟩ := List.length_eq_one_iff.1 hlog.2
    have hreplaced := h.expected c (by rw [hc]; simp) 5 (by simp [plainCalls])
    have hall := hlog.1
    rw [hc] at hall
    simp [hreplaced] at hall

end Slot
end Qtss.Config
