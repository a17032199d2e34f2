import Qtss.Worker.BridgeBooks
import Qtss.Worker.LiveEntries
/-
# What is sent while trading is halted

The AI tactical executor sends on the order's own check, the others on none: a bridge candidate, or an entry of a range
batch, that is left when the flag is set still goes out.
-/

namespace Qtss.Worker.LiveEntries
open Runs
open AiTactical (ExecutorConfig Entry Executor)

variable {toUppercase : String → String} {cfg : ExecutorConfig} {w : World} {op : Op}

/-- What a step sends. -/
def sentBy (cfg : ExecutorConfig) (w : World) : Op → List Sent
  | .bridge (.dispatch i) => if bridgeSends w.bridge i then [⟨true, w.haltedSince, none⟩] else []
  | .rangeRow a =>
    match w.range with
    | .executing rangeDoc ready (row :: _) =>
      if rangeSends rangeDoc ready row a then [⟨isEntryKind row.eventKind, w.haltedSince, none⟩] else []
    | _ => []
  | .aiPlace a =>
    match w.aiAt with
    | .checked e at_ => if aiSends cfg e a then [⟨true, w.haltedSince, some at_⟩] else []
    | _ => []
  | _ => []

/-- A check that was passed was passed before the flag was set. -/
def CheckedBefore (w : World) : Prop :=
  ∀ e at_, w.aiAt = .checked e at_ → at_ < w.clock ∧ ∀ since ∈ w.haltedSince, at_ < since

/-! ## A step -/

theorem sent_send (w : World) (sends isEntry : Bool) (checkedAt : Option ℕ) : (w.send sends isEntry checkedAt).sent =
    w.sent ++ if sends then [⟨isEntry, w.haltedSince, checkedAt⟩] else [] := by
  unfold World.send
  split
  · rfl
  · exact (List.append_nil _).symm

theorem sent_step (op : Op) : (step toUppercase cfg w op).sent = w.sent ++ sentBy cfg w op := by
  have hnone : w.sent = w.sent ++ [] := (List.append_nil _).symm
  cases op with
  | halt => exact hnone
  | clear => exact hnone
  | bridge op =>
    cases op with
    | dispatch i => exact sent_send _ _ _ _
    | _ => exact hnone
  | rangeList rangeCfg rows =>
    simp only [step, act, sentBy]
    split <;> exact hnone
  | rangeCheck =>
    simp only [step, act, sentBy]
    split <;> exact hnone
  | rangeRow a =>
    cases hrange : w.range with
    | executing rangeDoc ready rows =>
      cases rows with
      | nil =>
        simp only [step, act, sentBy, hrange]
        exact hnone
      | cons row rows =>
        simp only [step, act, sentBy, hrange]
        exact sent_send _ _ _ _
    | _ =>
      simp only [step, act, sentBy, hrange]
      exact hnone
  | aiTick engineSymbols =>
    simp only [step, act, sentBy]
    split <;> exact hnone
  | aiGates a =>
    simp only [step, act, sentBy]
    split
    · split
      · exact hnone
      · split <;> exact hnone
    · exact hnone
  | aiCheck =>
    simp only [step, act, sentBy]
    split <;> exact hnone
  | aiPlace a =>
    cases haiAt : w.aiAt with
    | checked e at_ =>
      simp only [step, act, sentBy, haiAt]
      exact sent_send _ _ _ _
    | _ =>
      simp only [step, act, sentBy, haiAt]
      exact hnone

theorem ownCheck_unchecked_iff (w : World) (isEntry : Bool) : OwnCheck ⟨isEntry, w.haltedSince, none⟩ ↔
    (w.isTradingHalted → isEntry = false) := by
  unfold World.isTradingHalted
  cases hsince : w.haltedSince with
  | none => simp [OwnCheck]
  | some since => simp [OwnCheck]

/-- What a step sends has its own check when nothing is left to the bridge and the batch. -/
theorem ownCheck_sentBy (cfg : ExecutorConfig) (h : CheckedBefore w) (op : Op) :
    (∀ x ∈ sentBy cfg w op, OwnCheck x) ↔ NothingLeft w op := by
  cases op with
  | bridge op =>
    cases op with
    | dispatch i =>
      simp only [sentBy, NothingLeft]
      cases bridgeSends w.bridge i with
      | true => simpa using ownCheck_unchecked_iff w true
      | false => simp
    | _ => simp [sentBy, NothingLeft]
  | rangeRow a =>
    cases hrange : w.range with
    | executing rangeDoc ready rows =>
      cases rows with
      | nil => simp [sentBy, NothingLeft, hrange]
      | cons row rows =>
        simp only [sentBy, NothingLeft, hrange]
        cases rangeSends rangeDoc ready row a with
        | true => simpa using ownCheck_unchecked_iff w (isEntryKind row.eventKind)
        | false => simp
    | _ => simp [sentBy, NothingLeft, hrange]
  | aiPlace a =>
    refine iff_of_true ?_ trivial
    intro x hx
    cases haiAt : w.aiAt with
    | checked e at_ =>
      simp only [sentBy, haiAt] at hx
      split at hx
      · rw [List.mem_singleton.1 hx]
        intro _ since hsince
        exact ⟨at_, rfl, (h e at_ haiAt).2 since hsince⟩
      · cases hx
    | _ => simp [sentBy, haiAt] at hx
  | _ => simp [sentBy, NothingLeft]

theorem respected_step (h : HaltRespected w) (hchecked : CheckedBefore w) (op : Op) :
    HaltRespected (step toUppercase cfg w op) ↔ NothingLeft w op := by
  rw [← ownCheck_sentBy cfg hchecked, HaltRespected, sent_step, List.forall_mem_append]
  exact and_iff_right h

@[simp] theorem aiAt_send (w : World) (sends isEntry : Bool) (checkedAt : Option ℕ) :
    (w.send sends isEntry checkedAt).aiAt = w.aiAt := by
  unfold World.send
  split <;> rfl

@[simp] theorem haltedSince_send (w : World) (sends isEntry : Bool) (checkedAt : Option ℕ) :
    (w.send sends isEntry checkedAt).haltedSince = w.haltedSince := by
  unfold World.send
  split <;> rfl

/-- A check stays ahead of the flag while nothing happens to either. -/
theorem CheckedBefore.keep {w' : World} (h : CheckedBefore w) (hai : w'.aiAt = w.aiAt)
    (hsince : w'.haltedSince = w.haltedSince) (hclock : w'.clock = w.clock + 1) : CheckedBefore w' := by
  intro e at_ haiAt
  rw [hai] at haiAt
  obtain ⟨hlt, hbefore⟩ := h e at_ haiAt
  rw [hsince, hclock]
  exact ⟨hlt.trans (Nat.lt_succ_self _), hbefore⟩

theorem CheckedBefore.of_not_checked {w' : World} (h : ∀ e at_, w'.aiAt ≠ .checked e at_) : CheckedBefore w' :=
  fun e at_ haiAt => absurd haiAt (h e at_)

theorem checkedBefore_step (h : CheckedBefore w) (op : Op) : CheckedBefore (step toUppercase cfg w op) := by
  cases op with
  | halt =>
    intro e at_ haiAt
    obtain ⟨hlt, hbefore⟩ := h e at_ haiAt
    refine ⟨hlt.trans (Nat.lt_succ_self _), fun since hsince => ?_⟩
    rcases Option.or_eq_some_iff.1 hsince with hold | ⟨-, hnow⟩
    · exact hbefore since hold
    · rw [← Option.some.inj hnow]
      exact hlt
  | clear =>
    intro e at_ haiAt
    exact ⟨(h e at_ haiAt).1.trans (Nat.lt_succ_self _), fun since hsince => by cases hsince⟩
  | bridge op =>
    cases op with
    | dispatch i => exact h.keep (aiAt_send _ _ _ _) (haltedSince_send _ _ _ _) rfl
    | _ => exact h.keep rfl rfl rfl
  | rangeList rangeCfg rows =>
    simp only [step, act]
    split <;> exact h.keep rfl rfl rfl
  | rangeCheck =>
    simp only [step, act]
    split <;> exact h.keep rfl rfl rfl
  | rangeRow a =>
    simp only [step, act]
    split
    · exact h.keep rfl rfl rfl
    · exact h.keep (aiAt_send _ _ _ _) (haltedSince_send _ _ _ _) rfl
    · exact h.keep rfl rfl rfl
  | aiTick engineSymbols =>
    simp only [step, act]
    split <;> exact h.keep rfl rfl rfl
  | aiGates a =>
    simp only [step, act]
    split
    · split
      · exact h.keep rfl rfl rfl
      · split
        · exact .of_not_checked fun e at_ => nofun
        · exact h.keep rfl rfl rfl
    · exact h.keep rfl rfl rfl
  | aiCheck =>
    cases haiAt : w.aiAt with
    | gated e =>
      simp only [step, act, haiAt]
      split
      · exact .of_not_checked fun e at_ => nofun
      next hfree =>
        intro e' at_ hchecked
        cases hchecked
        refine ⟨Nat.lt_succ_self _, fun since hsince => ?_⟩
        have hset : w.haltedSince = some since := hsince
        exact absurd (by rw [World.isTradingHalted, hset]; rfl) hfree
    | _ =>
      simp only [step, act, haiAt]
      exact h.keep haiAt.symm rfl rfl
  | aiPlace a =>
    cases haiAt : w.aiAt with
    | checked e at_ =>
      simp only [step, act, haiAt]
      refine .of_not_checked fun e' at' => ?_
      rw [aiAt_send]
      exact nofun
    | _ =>
      simp only [step, act, haiAt]
      exact h.keep haiAt.symm rfl rfl

/-! ## Runs -/

/-- **The halt**, over any interleaving of the executors and of those that set and clear the flag, over any batches:
every live entry that is sent while it is set had its own check passed before, when and only when nothing is left to the
bridge and to the range batch. -/
theorem haltRespected_iff (toUppercase : String → String) (cfg : ExecutorConfig) (halted : Bool) (bridge : BridgeWorker)
    (ai : Executor) (ops : List Op) :
    AllStates (step toUppercase cfg) HaltRespected (.start halted bridge ai) ops ↔
      AllSteps (step toUppercase cfg) NothingLeft (.start halted bridge ai) ops := by
  refine allStates_iff_allSteps (J := fun w => HaltRespected w ∧ CheckedBefore w) (K := fun _ => True) (fun w h => h.1)
    ?_ ?_ ?_ fun _ _ => trivial
  · exact fun w op h _ hgood => ⟨(respected_step h.1 h.2 op).2 hgood, checkedBefore_step h.2 op⟩
  · exact fun w op h _ hbad hrespected => hbad ((respected_step h.1 h.2 op).1 hrespected)
  · exact ⟨by simp [HaltRespected, World.start], .of_not_checked fun e at_ => nofun⟩

def rangeLive : RangeConfig := ⟨true, true, some (1, 3), .obj []⟩

def longEntry (id : Uuid) : RangeSignalEventPendingExecutionRow := ⟨id, "long_entry", "binance"⟩

/-- A candidate is claimed and a batch has its check, then trading is halted: both go out. -/
theorem sent_while_halted :
    let cfg : ExecutorConfig := ⟨false, true, 100, 1, 2, 5, 100000⟩
    let ops : List Op := [.bridge (.enqueue 1 (longTo110 "live") 0), .bridge (.claim claimAll),
      .rangeList rangeLive [longEntry 4, longEntry 5], .rangeCheck, .rangeRow ⟨true, true⟩, .halt,
      .rangeRow ⟨true, true⟩, .bridge (.dispatch (dispatchAt 100))]
    let start := World.start false (.start [] []) (.start cfg [])
    (run (step Execution.Dry.toAsciiUppercase cfg) start ops).sent =
        [⟨true, none, none⟩, ⟨true, some 5, none⟩, ⟨true, some 5, none⟩] ∧
      ¬ AllStates (step Execution.Dry.toAsciiUppercase cfg) HaltRespected start ops := by
  decide +kernel

end Qtss.Worker.LiveEntries
