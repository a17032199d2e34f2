import Qtss.Lib.Runs
import Qtss.Worker.Validator
/-
# Is an invalidation kept

"This loop garbage-collects dead ones", but a writer that finds the pattern once more upserts its row, and then each
upsert overwrites columns of its own choice: the harmonic and the range writer the flag and the meta, the opening range
writer the meta with the reason in it. `latch_iff` says in which runs every invalidation keeps its flag and reason, and
in which it keeps its flag.
-/

namespace Qtss.Worker.Validator
open Engine Keyed Runs

/-- The row under the key is invalidated. -/
def Flagged (t : DetectionTable) (k : DetectionKey) : Prop := ∃ d ∈ t.lookup k, d.invalidated = true

/-- It is, for that reason. -/
def FlaggedFor (t : DetectionTable) (p : DetectionKey × InvalidationReason) : Prop :=
  ∃ d ∈ t.lookup p.1, d.invalidated = true ∧ reasonOf d = some p.2.asStr

instance (t : DetectionTable) : DecidablePred (Flagged t) := fun _ => inferInstanceAs (Decidable (∃ d ∈ _, _))

instance (t : DetectionTable) : DecidablePred (FlaggedFor t) := fun _ => inferInstanceAs (Decidable (∃ d ∈ _, _))

/-- What the validator has invalidated is invalidated. -/
def FlagKept (s : Board) : Prop := ∀ p ∈ s.latched, Flagged s.detections p.1

/-- … and for the reason that it gave. -/
def Latched (s : Board) : Prop := ∀ p ∈ s.latched, FlaggedFor s.detections p

instance : DecidablePred FlagKept := fun _ => inferInstanceAs (Decidable (∀ p ∈ _, _))

instance : DecidablePred Latched := fun _ => inferInstanceAs (Decidable (∀ p ∈ _, _))

variable (rfc3339 : DateTime → String)

/-- No writer emits a row that the validator has invalidated. -/
def Spares (s : Board) : Op → Prop
  | .emit e => ∀ p ∈ s.latched, p.1 ≠ (e.row rfc3339).1
  | _ => True

/-- No harmonic row, and no range row that is still good, is emitted that the validator has invalidated. -/
def SparesFlag (s : Board) : Op → Prop
  | .emit (.orb ..) => True
  | .emit e => (e.row rfc3339).2.invalidated = false → ∀ p ∈ s.latched, p.1 ≠ (e.row rfc3339).1
  | _ => True

/-! ## One step -/

variable {rfc3339} {s : Board} {k : DetectionKey} {reason : InvalidationReason} {now : String}

variable (rfc3339) in
/-- **An update** does nothing, or it invalidates a row that is not invalidated, and no other. -/
theorem update_cases (s : Board) (ok : Bool) (now : String) :
    let s' := step rfc3339 s (.update ok now)
    (s'.detections = s.detections ∧ s'.latched = s.latched) ∨
    ∃ k reason d, s.detections.lookup k = some d ∧ d.invalidated = false ∧ s'.latched = (k, reason) :: s.latched ∧
      s'.detections.lookup k = some (invalidated reason now d) ∧
      ∀ k' ≠ k, s'.detections.lookup k' = s.detections.lookup k' := by
  cases hpending : s.pending with
  | nil => simp [step, hpending]
  | cons head rest =>
    obtain ⟨k, reason⟩ := head
    cases hfinds : ok && Finds s.detections k with
    | false => simp [step, hpending, hfinds]
    | true =>
      obtain ⟨d, hd, hgood⟩ := (Option.any_eq_true _ _).1 (Bool.and_eq_true_iff.1 hfinds).2
      have hflag : d.invalidated = false := by simpa using hgood
      refine .inr ⟨k, reason, d, hd, hflag, by simp [step, hpending, hfinds], ?_, fun k' hne => ?_⟩
      · simp only [step, hpending, hfinds, if_true, invalidate, lookup_adjust, hd, Option.map_some, hflag]
        rfl
      · simp only [step, hpending, hfinds, if_true, invalidate, lookup_adjust, hne, if_false]

theorem lookup_emit (e : Emission) (k' : DetectionKey) : (step rfc3339 s (.emit e)).detections.lookup k' =
    if k' = (e.row rfc3339).1 then
      some ((s.detections.lookup (e.row rfc3339).1).elim (e.row rfc3339).2 fun old => e.onConflict old (e.row rfc3339).2)
    else s.detections.lookup k' :=
  DetectionTable.lookup_upsert

theorem rawMeta_onConflict (e : Emission) (old new : Detection) : (e.onConflict old new).rawMeta = new.rawMeta := by
  cases e <;> rfl

variable (rfc3339 s) in
/-- **An emission** leaves a row with the writer's meta. -/
theorem rawMeta_emit (e : Emission) : ∃ d, (step rfc3339 s (.emit e)).detections.lookup (e.row rfc3339).1 = some d ∧
    d.rawMeta = (e.row rfc3339).2.rawMeta := by
  rw [lookup_emit, if_pos rfl]
  refine ⟨_, rfl, ?_⟩
  cases s.detections.lookup (e.row rfc3339).1 with
  | none => rfl
  | some old => exact rawMeta_onConflict e old _

/-! ## Flag and reason -/

theorem FlaggedFor.congr {t t' : DetectionTable} {p : DetectionKey × InvalidationReason} (h : FlaggedFor t p)
    (heq : t'.lookup p.1 = t.lookup p.1) : FlaggedFor t' p := by
  obtain ⟨d, hd, hd'⟩ := h
  exact ⟨d, heq.trans hd, hd'⟩

theorem Flagged.congr {t t' : DetectionTable} (h : Flagged t k) (heq : t'.lookup k = t.lookup k) : Flagged t' k := by
  obtain ⟨d, hd, hd'⟩ := h
  exact ⟨d, heq.trans hd, hd'⟩

/-- What is flagged is not what an update finds. -/
theorem Flagged.ne {t : DetectionTable} {k' : DetectionKey} {d : Detection} (h : Flagged t k) (hd : t.lookup k' = some d)
    (hgood : d.invalidated = false) : k ≠ k' := by
  rintro rfl
  obtain ⟨d', hd', hflag⟩ := h
  obtain rfl := Option.some.inj (hd.symm.trans hd')
  rw [hgood] at hflag
  cases hflag

theorem FlaggedFor.flagged {t : DetectionTable} {p : DetectionKey × InvalidationReason} (h : FlaggedFor t p) :
    Flagged t p.1 := by
  obtain ⟨d, hd, hflag, -⟩ := h
  exact ⟨d, hd, hflag⟩

/-- Every meta is an object. -/
def ObjMeta (s : Board) : Prop := ∀ k, ∀ d ∈ s.detections.lookup k, IsObj d.rawMeta

theorem objMeta_step (h : ObjMeta s) (op : Op) : ObjMeta (step rfc3339 s op) := by
  cases op with
  | read => exact h
  | update ok now =>
    rcases update_cases rfc3339 s ok now with ⟨hsame, -⟩ | ⟨k, reason, d, hd, -, -, hnew, hother⟩
    · unfold ObjMeta
      rw [hsame]
      exact h
    · intro k' d' hd'
      by_cases heq : k' = k
      · subst heq
        obtain rfl := Option.some.inj (hnew.symm.trans hd')
        exact isObj_invalidated (h k' d hd)
      · exact h k' d' ((hother k' heq).symm.trans hd')
  | emit e =>
    intro k' d' hd'
    obtain ⟨d, hd, hmeta⟩ := rawMeta_emit rfc3339 s e
    by_cases heq : k' = (e.row rfc3339).1
    · subst heq
      obtain rfl := Option.some.inj (hd.symm.trans hd')
      rw [hmeta]
      exact (reasonOf_row rfc3339 e).2
    · rw [lookup_emit, if_neg heq] at hd'
      exact h k' d' hd'

theorem latched_step (hmeta : ObjMeta s) (h : Latched s) (op : Op) (hspares : Spares rfc3339 s op) :
    Latched (step rfc3339 s op) := by
  cases op with
  | read => exact h
  | update ok now =>
    rcases update_cases rfc3339 s ok now with
      ⟨hsame, hlatched⟩ | ⟨k, reason, d, hd, hgood, hlatched, hnew, hother⟩
    · unfold Latched
      rw [hsame, hlatched]
      exact h
    · intro p hp
      rw [hlatched] at hp
      rcases List.mem_cons.1 hp with rfl | hp
      · exact ⟨_, hnew, rfl, reasonOf_invalidated (hmeta k d hd)⟩
      · exact (h p hp).congr (hother p.1 ((h p hp).flagged.ne hd hgood))
  | emit e =>
    intro p hp
    exact (h p hp).congr (by rw [lookup_emit, if_neg (hspares p hp)])

theorem not_latched_step (op : Op) (hspares : ¬ Spares rfc3339 s op) : ¬ Latched (step rfc3339 s op) := by
  cases op with
  | read => exact absurd trivial hspares
  | update => exact absurd trivial hspares
  | emit e =>
    unfold Spares at hspares
    push Not at hspares
    obtain ⟨p, hp, hkey⟩ := hspares
    intro h
    obtain ⟨d, hd, -, hreason⟩ := h p hp
    obtain ⟨d', hd', hmeta⟩ := rawMeta_emit rfc3339 s e
    rw [hkey] at hd
    obtain rfl := Option.some.inj (hd'.symm.trans hd)
    rw [reasonOf, hmeta] at hreason
    have hnone := (reasonOf_row rfc3339 e).1
    rw [reasonOf, hreason] at hnone
    cases hnone

/-! ## The flag alone -/

theorem flagKept_step (h : FlagKept s) (op : Op) (hspares : SparesFlag rfc3339 s op) :
    FlagKept (step rfc3339 s op) := by
  cases op with
  | read => exact h
  | update ok now =>
    rcases update_cases rfc3339 s ok now with
      ⟨hsame, hlatched⟩ | ⟨k, reason, d, hd, hgood, hlatched, hnew, hother⟩
    · unfold FlagKept
      rw [hsame, hlatched]
      exact h
    · intro p hp
      rw [hlatched] at hp
      rcases List.mem_cons.1 hp with rfl | hp
      · exact ⟨_, hnew, rfl⟩
      · exact (h p hp).congr (hother p.1 ((h p hp).ne hd hgood))
  | emit e =>
    intro p hp
    by_cases heq : p.1 = (e.row rfc3339).1
    · obtain ⟨old, hold, hflag⟩ := h p hp
      refine ⟨e.onConflict old (e.row rfc3339).2, ?_, ?_⟩
      · rw [lookup_emit, if_pos heq, ← heq, hold]
        rfl
      · cases e with
        | orb => exact hflag
        | harmonic | range => exact by_contra fun hgood => hspares (Bool.not_eq_true _ ▸ hgood) p hp heq
    · exact (h p hp).congr (by rw [lookup_emit, if_neg heq])

theorem not_flagKept_step (op : Op) (hspares : ¬ SparesFlag rfc3339 s op) : ¬ FlagKept (step rfc3339 s op) := by
  have hlost : ∀ e : Emission, (∀ old new, e.onConflict old new = new) → (e.row rfc3339).2.invalidated = false →
      (∃ p ∈ s.latched, p.1 = (e.row rfc3339).1) → ¬ FlagKept (step rfc3339 s (.emit e)) := by
    rintro e hover hgood ⟨p, hp, hkey⟩ h
    obtain ⟨d, hd, hflag⟩ := h p hp
    have hnew : d = (e.row rfc3339).2 := by
      rw [lookup_emit, if_pos hkey] at hd
      refine (Option.some.inj hd).symm.trans ?_
      cases s.detections.lookup (e.row rfc3339).1 with
      | none => rfl
      | some old => exact hover old _
    rw [hnew, hgood] at hflag
    cases hflag
  cases op with
  | read => exact absurd trivial hspares
  | update => exact absurd trivial hspares
  | emit e =>
    cases e with
    | orb => exact absurd trivial hspares
    | harmonic | range =>
      simp only [SparesFlag, not_forall, not_not] at hspares
      obtain ⟨hgood, p, hp, hkey⟩ := hspares
      exact hlost _ (fun _ _ => rfl) hgood ⟨p, hp, hkey⟩

/-! ## Every run -/

/-- **The latch**: in a run every invalidation keeps its flag and its reason exactly when no writer emits a row that
the validator has invalidated. And every one keeps its flag exactly when no harmonic row and no range row that is still
good is so. -/
theorem latch_iff (rfc3339 : DateTime → String) (ops : List Op) :
    (AllStates (step rfc3339) Latched .start ops ↔ AllSteps (step rfc3339) (Spares rfc3339) .start ops) ∧
    (AllStates (step rfc3339) FlagKept .start ops ↔ AllSteps (step rfc3339) (SparesFlag rfc3339) .start ops) := by
  constructor
  · exact allStates_iff_allSteps (J := fun s => ObjMeta s ∧ Latched s) (K := fun _ => True) (fun _ h => h.2)
      (fun _ op h _ hspares => ⟨objMeta_step h.1 op, latched_step h.1 h.2 op hspares⟩)
      (fun _ op _ _ hspares => not_latched_step op hspares)
      ⟨fun _ _ h => (nomatch h), fun _ h => nomatch h⟩ fun _ _ => trivial
  · exact allStates_iff_allSteps (J := FlagKept) (K := fun _ => True) (fun _ h => h)
      (fun _ op h _ hspares => flagKept_step h op hspares) (fun _ op _ _ hspares => not_flagKept_step op hspares)
      (fun _ h => nomatch h) fun _ _ => trivial

/-- A bullish Gartley from 100 to 200, completed at 122. -/
def gartley : Emission :=
  .harmonic ⟨"binance", "futures", "BTCUSDT", "15m"⟩ 0
    ⟨⟨0, 0, -1, 100⟩, ⟨5, 4500, 1, 200⟩, ⟨9, 8100, -1, 138⟩, ⟨12, 10800, 1, 176⟩, ⟨16, 14400, -1, 122⟩⟩
    ⟨"gartley", ⟨55/100, 65/100⟩, ⟨382/1000, 886/1000⟩, ⟨127/100, 1618/1000⟩, ⟨74/100, 82/100⟩, none, false⟩ (9 / 10)

/-- A close at 110 breaks it, and the writer's next tick revives it, with no trace of the reason. -/
theorem reemission_revives :
    let broken := [Op.emit gartley, .read ⟨"binance", "futures", "BTCUSDT", "15m"⟩
      ⟨3 / 100, 1, 95 / 100, 5 / 1000, 3 / 1000, 2 / 1000⟩ 110, .update true ""]
    let s := run (step fun _ => "") .start (broken ++ [.emit gartley])
    Latched (run (step fun _ => "") .start broken)
      ∧ ¬ AllStates (step fun _ => "") Latched .start (broken ++ [.emit gartley])
      ∧ s.latched.map (·.2) = [.geometryBroken]
      ∧ (values s.detections).map (fun d => (d.invalidated, reasonOf d)) = [(false, none)] := by
  decide +kernel

end Qtss.Worker.Validator
