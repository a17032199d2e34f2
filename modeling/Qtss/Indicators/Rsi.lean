import Qtss.Indicators.Averages
/-
# Wilder's RSI (`qtss-indicators/src/rsi.rs`)

"Returns an N-length Vec padded with NaN up to `period` so indices line up with the input close series". The first averages
are those of the first `period` changes, and each later one is "`prev * (n-1)/n + curr/n`".
-/

namespace Qtss.Indicators
open Floating Causal

variable {F : Type} [Floating F]

def rsiValue (avgGain avgLoss : F) : F :=
  if eq avgLoss (lit 0) then lit 100 else lit 100 - lit 100 / (lit 1 + avgGain / avgLoss)

/-- The gains and the losses of the first bars. -/
def rsiSeed (closes : List F) (period : ℕ) : F × F :=
  (List.range' 1 period).foldl
    (fun avg i =>
      let d := idx closes i - idx closes (i - 1)
      if le (lit 0) d then (avg.1 + d, avg.2) else (avg.1, avg.2 - d))
    (lit 0, lit 0)

/-- rsi.rs:10. -/
def rsi (closes : List F) (period : ℕ) : List F :=
  let n := closes.length
  if period = 0 ∨ n ≤ period then List.replicate n nan
  else
    let seed := rsiSeed closes period
    let p : F := lit period
    let avg := (seed.1 / p, seed.2 / p)
    List.replicate period nan ++ rsiValue avg.1 avg.2 :: scan
      (fun avg i =>
        let d := idx closes i - idx closes (i - 1)
        let (g, l) := if le (lit 0) d then (d, lit 0) else (lit 0, -d)
        let avg := ((avg.1 * (p - lit 1) + g) / p, (avg.2 * (p - lit 1) + l) / p)
        (avg, rsiValue avg.1 avg.2))
      avg (List.range' (period + 1) (n - (period + 1)))

variable {α : Type} {closes : List α → List F}

theorem rsiSeed_causal {l : List α} {period : ℕ} (hc : Causal closes) (h : period < l.length) (x : α) :
    rsiSeed (closes (l ++ [x])) period = rsiSeed (closes l) period := by
  refine List.foldl_ext _ _ _ fun avg i hi => ?_
  rw [List.mem_range'_1] at hi
  have hi' : i < l.length := by omega
  have hback : i - 1 < l.length := by omega
  simp only [idx_causal hc hi', idx_causal hc hback]

theorem causal_rsi (hc : Causal closes) (period : ℕ) : Causal fun l => rsi (closes l) period := by
  by_cases hp : period = 0
  · subst hp
    simpa [rsi, hc.length] using Causal.replicate nan
  · refine Causal.warm period nan
      (fun l => rsiValue ((rsiSeed (closes l) period).1 / lit period) ((rsiSeed (closes l) period).2 / lit period))
      (fun l => ((rsiSeed (closes l) period).1 / lit period, (rsiSeed (closes l) period).2 / lit period))
      (fun l avg i =>
        let d := idx (closes l) i - idx (closes l) (i - 1)
        let (g, l) := if le (lit 0) d then (d, lit 0) else (lit 0, -d)
        let avg := ((avg.1 * (lit period - lit 1) + g) / lit period, (avg.2 * (lit period - lit 1) + l) / lit period)
        (avg, rsiValue avg.1 avg.2)) ?_ ?_ ?_ ?_ ?_
    · intro l h
      unfold rsi
      simp only [hc.length]
      rw [if_pos (.inr h)]
    · intro l h
      unfold rsi
      simp only [hc.length]
      rw [if_neg (by omega)]
    · intro l x h
      simp only [rsiSeed_causal hc h]
    · intro l x h
      simp only [rsiSeed_causal hc h]
    · intro l x i s h
      have hback : i - 1 < l.length := by omega
      simp only [idx_causal hc h, idx_causal hc hback]

end Qtss.Indicators
