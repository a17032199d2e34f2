import Qtss.Lib.Runs
import Qtss.Worker.SetupWatcher
/-
# Take-profit levels and terminal events over a run of ticks

A level is done once its bit is set, and the bit is set by the events `TpHit`, `TpPartial` and `TpFinal`.
A level that is answered with Tighten (or Trail) becomes an `SlRatcheted` event, which sets no bit: the level
is due again on the next tick (`tighten_decides_again`). An Exit closes the setup in the database, but the
loop of its tick goes on with the levels that are left (`exit_goes_on`). `levelsOnce_iff` says that these are
the only ways in which a level is decided twice or an event follows a terminal one.
-/

namespace Qtss.Worker
open Notify Storage Runs

def Watched.kinds (w : Watched) : List LifecycleEventKind := w.events.map (·.kind)

/-- No event follows a terminal one. -/
def TerminalLast (ks : List LifecycleEventKind) : Prop := ks.Pairwise fun k _ => k.isTerminal = false

instance (ks : List LifecycleEventKind) : Decidable (TerminalLast ks) :=
  inferInstanceAs (Decidable (ks.Pairwise _))

/-- Every level is decided at most once, at most one event is terminal, and none follows it. -/
def LevelsOnce (w : Watched) : Prop :=
  (w.decided.map Prod.fst).Nodup ∧ (w.kinds.filter (·.isTerminal)).length ≤ 1 ∧ TerminalLast w.kinds

instance (w : Watched) : Decidable (LevelsOnce w) := inferInstanceAs (Decidable (_ ∧ _ ∧ _))

theorem TerminalLast.atMostOne {ks : List LifecycleEventKind} (h : TerminalLast ks) :
    (ks.filter (·.isTerminal)).length ≤ 1 := by
  induction ks with
  | nil => simp
  | cons k ks ih =>
    obtain ⟨hk, hks⟩ := List.pairwise_cons.1 h
    cases hterm : k.isTerminal with
    | false => simpa [hterm] using ih hks
    | true =>
      -- a terminal event has nothing after it
      have hempty : ks = [] := by
        cases ks with
        | nil => rfl
        | cons k' ks => exact absurd (hk k' (by simp)) (by simp [hterm])
      simp [hempty, hterm]

/-- What the watcher would answer to a hit of level `n`. -/
def Snapshot.hitAction (s : Snapshot) (i : WatcherInput) (n : ℕ) : SmartTargetAction :=
  (decideSmartTarget ⟨n, s.state.totalTps, s.health i.cfg, s.mid⟩ i.cfg.smart i.llm).action

/-- If the stop is not reached: no level that is due was answered with Tighten or Trail before (nor at all
before, if the bitmap is negative, for then none of its bits is read), and only the last one that is due is
answered with Exit. -/
def BitsTell (w : Watched) (i : WatcherInput) : Prop :=
  ∀ s, snapshot w.row i.prices = some s → s.state.reachedSl s.mid = false →
    (∀ n ∈ s.state.dueLevels s.mid, (n, .tighten) ∉ w.decided ∧ (n, .trail) ∉ w.decided
      ∧ (w.row.tpHitsBitmap.msb = true → ∀ a, (n, a) ∉ w.decided))
    ∧ (s.state.dueLevels s.mid).Pairwise fun n _ => s.hitAction i n ≠ .exit

/-! ## What an event does to the levels -/

variable {w w' : Watched} {s : Snapshot} {i : WatcherInput} {ctx : LifecycleContext}

@[simp] theorem update_decided {f : SetupRow → SetupRow} : (w.update f).decided = w.decided := rfl

@[simp] theorem update_kinds {f : SetupRow → SetupRow} : (w.update f).kinds = w.kinds := rfl

@[simp] theorem update_row {f : SetupRow → SetupRow} : (w.update f).row = f w.row := rfl

theorem onEvent_decided : (onEvent w ctx).decided = w.decided := by
  unfold onEvent sideTables
  cases ctx.kind <;> cases ctx.tpIndex <;> rfl

theorem onEvent_kinds : (onEvent w ctx).kinds = w.kinds ++ [ctx.kind] := by
  unfold onEvent sideTables Watched.kinds
  cases hkind : ctx.kind <;> cases ctx.tpIndex <;>
    simp [Watched.update, LifecycleEventKind.closeReason, hkind]

/-- An event closes the setup exactly when it is terminal. -/
theorem onEvent_closedAt : (onEvent w ctx).row.closedAt =
    if ctx.kind.isTerminal then (w.row.closedAt <|> some ctx.emittedAt) else w.row.closedAt := by
  unfold onEvent sideTables
  cases ctx.kind <;> cases ctx.tpIndex <;>
    simp [LifecycleEventKind.closeReason, LifecycleEventKind.isTerminal, SetupRow.markEntryTouched,
      SetupRow.setTpHitBit]

/-- The three events that set a bit. -/
def setsBit : LifecycleEventKind → Bool
  | .tpHit | .tpPartial | .tpFinal => true
  | _ => false

theorem onEvent_bitmap : (onEvent w ctx).row.tpHitsBitmap =
    if setsBit ctx.kind then
      ctx.tpIndex.elim w.row.tpHitsBitmap fun n => w.row.tpHitsBitmap ||| (1#32 <<< (n - 1))
    else w.row.tpHitsBitmap := by
  unfold onEvent sideTables setsBit
  cases ctx.kind <;> cases ctx.tpIndex <;>
    simp [LifecycleEventKind.closeReason, SetupRow.markEntryTouched, SetupRow.setTpHitBit]

/-! ## The parts of a tick -/

/-- `w'` is reached from `w` without deciding a level, setting a bit or closing the setup. -/
structure Quiet (w w' : Watched) : Prop where
  decided : w'.decided = w.decided
  kinds : ∃ ks, w'.kinds = w.kinds ++ ks ∧ ∀ k ∈ ks, k.isTerminal = false
  bitmap : w'.row.tpHitsBitmap = w.row.tpHitsBitmap
  closedAt : w'.row.closedAt = w.row.closedAt

theorem Quiet.refl (w : Watched) : Quiet w w := ⟨rfl, ⟨[], by simp⟩, rfl, rfl⟩

theorem Quiet.trans {w w' w'' : Watched} (h : Quiet w w') (h' : Quiet w' w'') : Quiet w w'' := by
  obtain ⟨ks, hks, hquiet⟩ := h.kinds
  obtain ⟨ks', hks', hquiet'⟩ := h'.kinds
  refine ⟨h'.decided.trans h.decided, ⟨ks ++ ks', ?_, ?_⟩, h'.bitmap.trans h.bitmap,
    h'.closedAt.trans h.closedAt⟩
  · rw [hks', hks, List.append_assoc]
  · intro k hk
    exact (List.mem_append.1 hk).elim (hquiet k) (hquiet' k)

theorem quiet_update {f : SetupRow → SetupRow}
    (hbitmap : (f w.row).tpHitsBitmap = w.row.tpHitsBitmap)
    (hclosed : (f w.row).closedAt = w.row.closedAt) : Quiet w (w.update f) :=
  ⟨rfl, ⟨[], by simp⟩, hbitmap, hclosed⟩

/-- An update that is followed by an `SlRatcheted` event. -/
theorem quiet_ratcheted {f : SetupRow → SetupRow} (hkind : ctx.kind = .slRatcheted)
    (hbitmap : (f w.row).tpHitsBitmap = w.row.tpHitsBitmap)
    (hclosed : (f w.row).closedAt = w.row.closedAt) :
    Quiet w { w.update f with events := w.events ++ [ctx] } := by
  refine ⟨rfl, ⟨[.slRatcheted], ?_, by simp [LifecycleEventKind.isTerminal]⟩, hbitmap, hclosed⟩
  simp [Watched.kinds, hkind]

theorem moveStops_quiet : Quiet w (moveStops s i w) := by
  have htrail : Quiet w (runTrailAdvance s.row s.state s.mid i.cfg.approach w) := by
    rcases runTrailAdvance_cases (s := s) (i := i) (w := w) with ⟨-, heq⟩ | ⟨-, heq | heq⟩ <;> rw [heq]
    · exact quiet_update rfl rfl
    · exact .refl w
    · exact quiet_update rfl rfl
  have hratchet : ∀ w, Quiet w
      (runPozKoruma s.row s.state s.mid i.cfg.pozKoruma (s.health i.cfg) i.now w) := by
    intro w
    rcases runPozKoruma_cases (s := s) (i := i) (w := w) with
      ⟨-, _, _, _, ctx, hkind, heq⟩ | ⟨-, heq | ⟨_, _, _, heq⟩⟩ <;> rw [heq]
    · exact quiet_ratcheted hkind rfl rfl
    · exact .refl w
    · exact quiet_update rfl rfl
  have happroach : ∀ w, Quiet w (runTpApproach s i w) := by
    intro w
    rcases runTpApproach_cases (s := s) (i := i) (w := w) with
      ⟨-, _, ctx, hkind, heq⟩ | ⟨-, heq | ⟨_, heq⟩⟩ <;> rw [heq]
    · exact quiet_ratcheted hkind rfl rfl
    · exact .refl w
    · exact quiet_update rfl rfl
  exact (htrail.trans (hratchet _)).trans (happroach _)

theorem entryTouched_quiet {price : ℚ} {health : HealthScore} :
    Quiet w (handleDecision s.row s.state health i.cfg i.llm i.now w
      ⟨.entryTouched, none, price⟩) := by
  have hpromote : promoteTpHit s.state ⟨.entryTouched, none, price⟩ = ⟨.entryTouched, none, price⟩ := rfl
  simp only [handleDecision, hpromote, reduceCtorEq, if_false]
  refine ⟨onEvent_decided, ⟨[.entryTouched], onEvent_kinds, by simp [LifecycleEventKind.isTerminal]⟩,
    ?_, ?_⟩
  · rw [onEvent_bitmap]
    rfl
  · rw [onEvent_closedAt]
    rfl

/-- A stop ends the setup, as an `SlHit` or as a `TrailStop`. -/
theorem slHit_spec {price : ℚ} {health : HealthScore} (w' : Watched)
    (hw' : w' = handleDecision s.row s.state health i.cfg i.llm i.now w ⟨.slHit, none, price⟩) :
    w'.decided = w.decided ∧ w'.row.tpHitsBitmap = w.row.tpHitsBitmap
      ∧ (∃ k, k.isTerminal = true ∧ w'.kinds = w.kinds ++ [k])
      ∧ w'.row.closedAt = (w.row.closedAt <|> some i.now) := by
  have hpromote : promoteTpHit s.state ⟨.slHit, none, price⟩ = ⟨.slHit, none, price⟩ := rfl
  simp only [handleDecision, hpromote, if_true] at hw'
  split at hw' <;> subst hw' <;>
    refine ⟨onEvent_decided, ?_, ⟨_, ?_, onEvent_kinds⟩, ?_⟩ <;>
    first
      | (rw [onEvent_bitmap]; rfl)
      | (rw [onEvent_closedAt]; rfl)
      | rfl

/-- The actions that set no bit. -/
def LeavesBit : SmartTargetAction → Prop
  | .tighten | .trail => True
  | _ => False

instance : DecidablePred LeavesBit := fun a => by cases a <;> unfold LeavesBit <;> infer_instance

/-- A hit of level `n`. -/
theorem tpHit_spec (n : ℕ) (w' : Watched)
    (hw' : w' = handleDecision s.row s.state (s.health i.cfg) i.cfg i.llm i.now w
      ⟨.tpHit, some n, s.mid⟩) :
    w'.decided = w.decided ++ [(n, s.hitAction i n)]
      ∧ w'.kinds = w.kinds ++ [actionToKind (s.hitAction i n)]
      ∧ w'.row.tpHitsBitmap =
          (if LeavesBit (s.hitAction i n) then w.row.tpHitsBitmap
            else w.row.tpHitsBitmap ||| (1#32 <<< (n - 1)))
      ∧ w'.row.closedAt =
          if s.hitAction i n = .exit then (w.row.closedAt <|> some i.now) else w.row.closedAt := by
  subst hw'
  simp only [handleDecision, handleTpHit]
  rw [onEvent_decided, onEvent_kinds, onEvent_bitmap, onEvent_closedAt]
  refine ⟨rfl, rfl, ?_, ?_⟩
  · change (if setsBit (actionToKind (s.hitAction i n)) then _ else _) = _
    cases s.hitAction i n <;> rfl
  · change (if (actionToKind (s.hitAction i n)).isTerminal then _ else _) = _
    cases s.hitAction i n <;> rfl

/-- The hits of a tick, one level after the other. -/
def runHits (s : Snapshot) (i : WatcherInput) (w : Watched) (levels : List ℕ) : Watched :=
  (levels.map fun n => (⟨.tpHit, some n, s.mid⟩ : LifecycleDecision)).foldl
    (handleDecision s.row s.state (s.health i.cfg) i.cfg i.llm i.now) w

theorem runHits_cons (n : ℕ) (levels : List ℕ) :
    runHits s i w (n :: levels) = runHits s i (handleDecision s.row s.state (s.health i.cfg) i.cfg
      i.llm i.now w ⟨.tpHit, some n, s.mid⟩) levels := by
  rw [runHits, List.map_cons, List.foldl_cons, runHits]

theorem runHits_decided (levels : List ℕ) (w : Watched) :
    (runHits s i w levels).decided = w.decided ++ levels.map fun n => (n, s.hitAction i n) := by
  induction levels generalizing w with
  | nil => simp [runHits]
  | cons n levels ih => rw [runHits_cons, ih, (tpHit_spec n _ rfl).1]; simp

theorem runHits_kinds (levels : List ℕ) (w : Watched) :
    (runHits s i w levels).kinds =
      w.kinds ++ levels.map fun n => actionToKind (s.hitAction i n) := by
  induction levels generalizing w with
  | nil => simp [runHits]
  | cons n levels ih => rw [runHits_cons, ih, (tpHit_spec n _ rfl).2.1]; simp

theorem runHits_closedAt (levels : List ℕ) (w : Watched)
    (h : (runHits s i w levels).row.closedAt = none) :
    w.row.closedAt = none ∧ ∀ n ∈ levels, s.hitAction i n ≠ .exit := by
  induction levels generalizing w with
  | nil => exact ⟨h, by simp⟩
  | cons n levels ih =>
    rw [runHits_cons] at h
    obtain ⟨hclosed, hrest⟩ := ih _ h
    rw [(tpHit_spec n _ rfl).2.2.2] at hclosed
    by_cases hexit : s.hitAction i n = .exit
    · simp [hexit] at hclosed
    · rw [if_neg hexit] at hclosed
      exact ⟨hclosed, List.forall_mem_cons.2 ⟨hexit, hrest⟩⟩

/-- A hit keeps the bits that are set. -/
theorem tpHit_bit_mono (n b : ℕ) (h : w.row.tpHitsBitmap.getLsbD b = true) :
    (handleDecision s.row s.state (s.health i.cfg) i.cfg i.llm i.now w
      ⟨.tpHit, some n, s.mid⟩).row.tpHitsBitmap.getLsbD b = true := by
  rw [(tpHit_spec n _ rfl).2.2.1]
  split
  · exact h
  · rw [BitVec.getLsbD_or, h, Bool.true_or]

theorem tpHit_bit_set {n : ℕ} (hn : n ≤ 3) (h : ¬ LeavesBit (s.hitAction i n)) :
    (handleDecision s.row s.state (s.health i.cfg) i.cfg i.llm i.now w
      ⟨.tpHit, some n, s.mid⟩).row.tpHitsBitmap.getLsbD (n - 1) = true := by
  have hlt : n - 1 < 32 := by omega
  rw [(tpHit_spec n _ rfl).2.2.1, if_neg h, BitVec.getLsbD_or]
  simp [hlt]

theorem runHits_bit_mono (levels : List ℕ) (w : Watched) (b : ℕ)
    (h : w.row.tpHitsBitmap.getLsbD b = true) :
    (runHits s i w levels).row.tpHitsBitmap.getLsbD b = true := by
  induction levels generalizing w with
  | nil => exact h
  | cons n levels ih => exact ih _ (tpHit_bit_mono n b h)

theorem runHits_bit_set (levels : List ℕ) (w : Watched) (hle : ∀ n ∈ levels, n ≤ 3) :
    ∀ n ∈ levels, ¬ LeavesBit (s.hitAction i n) →
      (runHits s i w levels).row.tpHitsBitmap.getLsbD (n - 1) = true := by
  induction levels generalizing w with
  | nil => simp
  | cons m levels ih =>
    obtain ⟨hm, hrest⟩ := List.forall_mem_cons.1 hle
    intro n hn hbit
    rw [runHits_cons]
    rcases List.mem_cons.1 hn with rfl | hn
    · exact runHits_bit_mono levels _ _ (tpHit_bit_set hm hbit)
    · exact ih _ hrest n hn hbit

/-- A tick is a quiet part, and then the stop alone or the hits. -/
theorem tickOnce_cases (hsnap : snapshot w.row i.prices = some s) :
    ∃ w₁, Quiet w w₁
      ∧ ((s.state.reachedSl s.mid = true ∧ tickOnce w i =
          handleDecision s.row s.state (s.health i.cfg) i.cfg i.llm i.now w₁ ⟨.slHit, none, s.mid⟩)
        ∨ (s.state.reachedSl s.mid = false
          ∧ tickOnce w i = runHits s i w₁ (s.state.dueLevels s.mid))) := by
  have hmid : s.tick.mid = s.mid := rfl
  -- the entry, if it is touched on this tick, comes first
  obtain ⟨entry, w₁, hquiet, hentry, hdetect⟩ : ∃ entry w₁, Quiet w w₁
      ∧ entry.foldl (handleDecision s.row s.state (s.health i.cfg) i.cfg i.llm i.now)
          (moveStops s i w) = w₁
      ∧ detectTransitions s.state s.tick = if s.state.reachedSl s.mid then
          entry ++ [⟨.slHit, none, s.mid⟩]
        else entry ++ (s.state.dueLevels s.mid).map fun n => ⟨.tpHit, some n, s.mid⟩ := by
    by_cases htouch : (!s.state.entryTouched && s.state.reached s.mid s.state.entryPrice) = true
    · refine ⟨[⟨.entryTouched, none, s.mid⟩], _, moveStops_quiet.trans entryTouched_quiet, rfl, ?_⟩
      simp only [detectTransitions, hmid, if_pos htouch]
    · refine ⟨[], _, moveStops_quiet, rfl, ?_⟩
      simp only [detectTransitions, hmid, if_neg htouch]
  refine ⟨w₁, hquiet, ?_⟩
  unfold tickOnce
  simp only [hsnap, hdetect]
  cases s.state.reachedSl s.mid with
  | true =>
    left
    rw [if_pos rfl, List.foldl_append, hentry]
    exact ⟨rfl, rfl⟩
  | false =>
    right
    rw [if_neg Bool.false_ne_true, List.foldl_append, hentry]
    exact ⟨rfl, rfl⟩

/-! ## A tick and a run -/

/-- The invariant of the runs: an open setup has had no terminal event, and a level whose answer sets
its bit has its bit set. -/
structure LevelsOk (w : Watched) : Prop where
  nodup : (w.decided.map Prod.fst).Nodup
  last : TerminalLast w.kinds
  openQuiet : w.row.closedAt = none → ∀ k ∈ w.kinds, k.isTerminal = false
  bits : ∀ n a, (n, a) ∈ w.decided → ¬ LeavesBit a → w.row.tpHitsBitmap.getLsbD (n - 1) = true

theorem LevelsOk.levelsOnce (h : LevelsOk w) : LevelsOnce w := ⟨h.nodup, h.last.atMostOne, h.last⟩

theorem LevelsOk.quiet (h : LevelsOk w) (hopen : w.row.closedAt = none) (hq : Quiet w w') :
    LevelsOk w' ∧ w'.row.closedAt = none := by
  obtain ⟨ks, hks, hquiet⟩ := hq.kinds
  have hall : ∀ k ∈ w'.kinds, k.isTerminal = false := by
    intro k hk
    rw [hks] at hk
    exact (List.mem_append.1 hk).elim (h.openQuiet hopen k) (hquiet k)
  refine ⟨⟨?_, ?_, fun _ => hall, ?_⟩, hq.closedAt.trans hopen⟩
  · rw [hq.decided]
    exact h.nodup
  · exact List.pairwise_of_forall_mem_list fun k hk _ _ => hall k hk
  · rw [hq.decided, hq.bitmap]
    exact h.bits

/-- A due level that was decided before had left its bit unset, or no bit is read. -/
theorem due_decided {n : ℕ} (h : LevelsOk w) (hsnap : snapshot w.row i.prices = some s)
    (hdue : n ∈ s.state.dueLevels s.mid) {a : SmartTargetAction} (hdecided : (n, a) ∈ w.decided) :
    a = .tighten ∨ a = .trail ∨ w.row.tpHitsBitmap.msb = true := by
  obtain ⟨-, -, hstate, -⟩ := snapshot_eq_some.1 hsnap
  obtain ⟨-, -, hbitmap, hlen⟩ := buildState_spec hstate
  obtain ⟨j, tp, rfl, hget, hunset, -⟩ := mem_dueLevels.1 hdue
  have hj : j < 3 := hlen ▸ (List.getElem?_eq_some_iff.1 hget).1
  by_cases hleaves : LeavesBit a
  · cases a with
    | tighten => exact .inl rfl
    | trail => exact .inr (.inl rfl)
    | ride | scale | exit => exact absurd hleaves id
  · -- its bit is set, so the watcher has not read it
    right; right
    have hset := h.bits _ _ hdecided hleaves
    cases hmsb : w.row.tpHitsBitmap.msb with
    | true => rfl
    | false =>
      rw [WatcherSetupState.tpHit, hbitmap, hmsb, if_neg Bool.false_ne_true,
        BitVec.getLsbD_setWidth] at hunset
      rw [Nat.add_sub_cancel] at hset
      have : j < 8 := by omega
      simp [this, hset] at hunset

theorem due_le_three {n : ℕ} (hsnap : snapshot w.row i.prices = some s)
    (hdue : n ∈ s.state.dueLevels s.mid) : 0 < n ∧ n ≤ 3 := by
  obtain ⟨-, -, hstate, -⟩ := snapshot_eq_some.1 hsnap
  obtain ⟨-, -, -, hlen⟩ := buildState_spec hstate
  obtain ⟨j, tp, rfl, hget, -⟩ := mem_dueLevels.1 hdue
  have := (List.getElem?_eq_some_iff.1 hget).1
  omega

theorem actionToKind_terminal {a : SmartTargetAction} :
    (actionToKind a).isTerminal = false ↔ a ≠ .exit := by
  cases a <;> simp [actionToKind, LifecycleEventKind.isTerminal]

theorem snapshot_open (hsnap : snapshot w.row i.prices = some s) : w.row.closedAt = none := by
  obtain ⟨-, hlisted, -⟩ := snapshot_eq_some.1 hsnap
  simp only [SetupRow.listed, Bool.and_eq_true, Option.isNone_iff_eq_none] at hlisted
  exact hlisted.2

/-- A tick that keeps the rule keeps the invariant. -/
theorem tickOnce_levelsOk (h : LevelsOk w) (htell : BitsTell w i) : LevelsOk (tickOnce w i) := by
  cases hsnap : snapshot w.row i.prices with
  | none =>
    unfold tickOnce
    rw [hsnap]
    exact h
  | some s =>
    obtain ⟨w₁, hquiet, hcases⟩ := tickOnce_cases hsnap
    obtain ⟨hok₁, hopen₁⟩ := h.quiet (snapshot_open hsnap) hquiet
    have hnonterminal := hok₁.openQuiet hopen₁
    rcases hcases with ⟨-, htick⟩ | ⟨hstop, htick⟩
    · obtain ⟨hdecided, hbitmap, ⟨k, -, hkinds⟩, hclosed⟩ := slHit_spec _ htick
      constructor
      · rw [hdecided]
        exact hok₁.nodup
      · rw [hkinds]
        exact List.pairwise_append.2
          ⟨hok₁.last, List.pairwise_singleton _ _, fun k hk _ _ => hnonterminal k hk⟩
      · intro hnone
        rw [hclosed, hopen₁] at hnone
        cases hnone
      · rw [hdecided, hbitmap]
        exact hok₁.bits
    · obtain ⟨hfresh, hexits⟩ := htell s hsnap hstop
      rw [htick]
      constructor
      · rw [runHits_decided, List.map_append, List.map_map]
        apply List.nodup_append.2 ⟨hok₁.nodup, ?_, ?_⟩
        · simpa [Function.comp_def] using dueLevels_nodup s.state s.mid
        · rintro n hn m hm rfl
          obtain ⟨⟨n, a⟩, hna, rfl⟩ := List.mem_map.1 hn
          obtain ⟨n', hn', rfl⟩ := List.mem_map.1 hm
          rw [hquiet.decided] at hna
          obtain ⟨htighten, htrail, hmsb⟩ := hfresh n' hn'
          rcases due_decided h hsnap hn' hna with rfl | rfl | hneg
          · exact htighten hna
          · exact htrail hna
          · exact hmsb hneg a hna
      · rw [TerminalLast, runHits_kinds]
        refine List.pairwise_append.2 ⟨hok₁.last, ?_, fun k hk _ _ => hnonterminal k hk⟩
        exact List.pairwise_map.2 (hexits.imp fun hexit => actionToKind_terminal.2 hexit)
      · intro hnone k hk
        obtain ⟨-, hno⟩ := runHits_closedAt _ _ hnone
        rw [runHits_kinds] at hk
        rcases List.mem_append.1 hk with hk | hk
        · exact hnonterminal k hk
        · obtain ⟨n, hn, rfl⟩ := List.mem_map.1 hk
          exact actionToKind_terminal.2 (hno n hn)
      · intro n a hna hbit
        rw [runHits_decided] at hna
        rcases List.mem_append.1 hna with hna | hna
        · exact runHits_bit_mono _ _ _ (hok₁.bits n a hna hbit)
        · obtain ⟨m, hm, heq⟩ := List.mem_map.1 hna
          obtain ⟨rfl, rfl⟩ := Prod.mk.inj heq
          exact runHits_bit_set _ _ (fun n hn => (due_le_three hsnap hn).2) m hm hbit

/-- A tick that breaks the rule decides a level again or goes on after a terminal event. -/
theorem tickOnce_not_levelsOnce (hnot : ¬ BitsTell w i) : ¬ LevelsOnce (tickOnce w i) := by
  rintro ⟨hnodup, -, hlast⟩
  apply hnot
  intro s hsnap hstop
  obtain ⟨w₁, hquiet, ⟨hreached, -⟩ | ⟨-, htick⟩⟩ := tickOnce_cases hsnap
  · rw [hstop] at hreached
    cases hreached
  · rw [htick, runHits_decided, hquiet.decided, List.map_append] at hnodup
    rw [htick, TerminalLast, runHits_kinds] at hlast
    have hfresh : ∀ n ∈ s.state.dueLevels s.mid, ∀ a, (n, a) ∉ w.decided := by
      intro n hn a hna
      have hold : n ∈ w.decided.map Prod.fst := List.mem_map.2 ⟨(n, a), hna, rfl⟩
      have hnew : n ∈ ((s.state.dueLevels s.mid).map fun n => (n, s.hitAction i n)).map Prod.fst :=
        List.mem_map.2 ⟨_, List.mem_map.2 ⟨n, hn, rfl⟩, rfl⟩
      exact (List.nodup_append.1 hnodup).2.2 n hold n hnew rfl
    refine ⟨fun n hn => ⟨hfresh n hn _, hfresh n hn _, fun _ a => hfresh n hn a⟩, ?_⟩
    exact (List.pairwise_map.1 (List.pairwise_append.1 hlast).2.1).imp
      fun hk => actionToKind_terminal.1 hk

/-- **Levels and terminal events over a run**: every level is decided once and no event follows a terminal
one exactly on the runs whose ticks all keep the rule. -/
theorem levelsOnce_iff (row : SetupRow) (ticks : List WatcherInput) :
    AllStates tickOnce LevelsOnce (.start row) ticks ↔
      AllSteps tickOnce BitsTell (.start row) ticks := by
  apply allStates_iff_allSteps (J := LevelsOk) (K := fun _ => True)
  · exact fun w h => h.levelsOnce
  · exact fun w i h _ htell => tickOnce_levelsOk h htell
  · exact fun w i _ _ hnot => tickOnce_not_levelsOnce hnot
  · constructor <;> simp [Watched.start, Watched.kinds, TerminalLast]
  · exact fun _ _ => trivial

/-- Targets at 101 and 200. -/
def twoTargets : SetupRow :=
  { longFrom100Row with rawMeta := [("tp1_price", 101), ("tp2_price", 200)] }

def at101 (now : DateTime) : WatcherInput :=
  ⟨fun _ _ => some ⟨101, 101, now⟩, now, fallbackConfig, defaultLlmJudge⟩

/-- At 101 the health is 48.4, so the first target is answered with Tighten; five seconds later it is
decided again. -/
theorem tighten_decides_again :
    ¬ AllStates tickOnce LevelsOnce (.start twoTargets) [at101 0, at101 5]
    ∧ (run tickOnce (.start twoTargets) [at101 0, at101 5]).decided = [(1, .tighten), (1, .ride)] := by
  decide +kernel

/-- Targets at 101 and 102 in the second and third slot, under stricter health bands. -/
def lateTargets : SetupRow :=
  { longFrom100Row with
    entrySl := some 50
    koruma := some 50
    rawMeta := [("tp2_price", 101), ("tp3_price", 102)] }

def gapTo102 : WatcherInput :=
  ⟨fun _ _ => some ⟨102, 102, 0⟩, 0, { fallbackConfig with bands := ⟨90, 50, 30⟩, smart := ⟨90, 30⟩ },
    defaultLlmJudge⟩

/-- The second of two targets counts as the last of them, so both are exits of the same tick. -/
theorem exit_goes_on :
    (run tickOnce (.start lateTargets) [gapTo102]).kinds = [.slRatcheted, .tpFinal, .tpFinal] := by
  decide +kernel

end Qtss.Worker
