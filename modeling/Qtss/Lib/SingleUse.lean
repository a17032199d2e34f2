import Mathlib.Data.List.Nodup
import Qtss.Lib.Runs
/-!
# Things that are used once

A component uses things (`log`, in the order of use) and keeps a mark on those that are `spent`. If a mark stays, and a
step uses at most one thing, which is not spent before and is spent after, then nothing is used twice over a whole run.
-/
namespace SingleUse
open Runs

variable {S O T : Type*} {step : S → O → S} {log : S → List T} {spent : S → T → Prop} {s s' : S}

/-- Used once each, and spent. -/
structure Accounted (log : S → List T) (spent : S → T → Prop) (s : S) : Prop where
  nodup : (log s).Nodup
  spent : ∀ t ∈ log s, spent s t

/-- Nothing used, or one thing that was not spent and now is. -/
def UsesFresh (log : S → List T) (spent : S → T → Prop) (s s' : S) : Prop :=
  log s' = log s ∨ ∃ t, ¬ spent s t ∧ log s' = log s ++ [t] ∧ spent s' t

theorem Accounted.next (h : Accounted log spent s) (hkeep : ∀ t, spent s t → spent s' t)
    (huse : UsesFresh log spent s s') : Accounted log spent s' := by
  rcases huse with hlog | ⟨t, hfresh, hlog, hspent⟩
  · constructor
    · rw [hlog]
      exact h.nodup
    · rw [hlog]
      exact fun t ht => hkeep t (h.spent t ht)
  · have hnew : t ∉ log s := fun ht => hfresh (h.spent t ht)
    constructor
    · rw [hlog, ← List.concat_eq_append]
      exact h.nodup.concat hnew
    · intro u hu
      rw [hlog, List.mem_append, List.mem_singleton] at hu
      rcases hu with hu | rfl
      · exact hkeep u (h.spent u hu)
      · exact hspent

/-- **Single use**: of a run whose steps keep the marks and use what is fresh. -/
theorem allStates_nodup {G : S → O → Prop} (hkeep : ∀ s o t, spent s t → spent (step s o) t)
    (huse : ∀ s o, G s o → UsesFresh log spent s (step s o)) {os : List O} (hs : log s = [])
    (hgood : AllSteps step G s os) : AllStates step (fun s => (log s).Nodup) s os := by
  have haccounted : AllStates step (Accounted log spent) s os := by
    refine allStates_of_allSteps (K := fun _ => True) ?_ ?_ (fun _ _ => trivial) hgood
    · exact fun s o h _ hg => h.next (hkeep s o) (huse s o hg)
    · exact ⟨by simp [hs], by simp [hs]⟩
  exact haccounted.imp fun s h => h.nodup

end SingleUse
