import Mathlib.Algebra.Order.Field.Rat
/-
# Position health (`qtss-notify/src/health.rs`)

| here | there |
| --- | --- |
| `HealthBand`, `HealthBands.classify` | health.rs:25, `classify` (:105) |
| `HealthWeights`, `HealthComponents`, `HealthScore` | :59, :127, :138 |
| `computeHealth`      | `compute` (:148); missing components drop out of the weighted mean |

Scores are exact rationals.
-/

namespace Qtss.Notify

inductive HealthBand where
  | healthy | warn | danger | critical
deriving DecidableEq, Repr

structure HealthWeights where
  momentum : ℚ
  structural : ℚ
  orderbook : ℚ
  regime : ℚ
  correlation : ℚ
  aiRescore : ℚ
deriving DecidableEq

def HealthWeights.fallback : HealthWeights := ⟨1 / 4, 1 / 4, 3 / 20, 3 / 20, 1 / 10, 1 / 10⟩

structure HealthBands where
  healthyMin : ℚ
  warnMin : ℚ
  dangerMin : ℚ
deriving DecidableEq

def HealthBands.fallback : HealthBands := ⟨70, 50, 30⟩

/-- health.rs:105. -/
def HealthBands.classify (b : HealthBands) (score : ℚ) : HealthBand :=
  let rules := [(b.healthyMin, HealthBand.healthy), (b.warnMin, .warn), (b.dangerMin, .danger)]
  ((rules.find? fun r => decide (score ≥ r.1)).map (·.2)).getD .critical

structure HealthComponents where
  momentum : Option ℚ
  structural : Option ℚ
  orderbook : Option ℚ
  regime : Option ℚ
  correlation : Option ℚ
  aiRescore : Option ℚ
deriving DecidableEq

structure HealthScore where
  total : ℚ
  band : HealthBand
  components : HealthComponents
deriving DecidableEq

def clamp (x lo hi : ℚ) : ℚ := max lo (min hi x)

/-- health.rs:148. -/
def computeHealth (weights : HealthWeights) (c : HealthComponents) (bands : HealthBands) :
    HealthScore :=
  let pairs := [(c.momentum, weights.momentum), (c.structural, weights.structural),
    (c.orderbook, weights.orderbook), (c.regime, weights.regime),
    (c.correlation, weights.correlation), (c.aiRescore, weights.aiRescore)]
  let present := pairs.filterMap fun (v, w) => v.map fun x => (clamp x 0 100 * w, w)
  let (weighted, weightSum) := present.foldl (fun (ws, wt) (x, w) => (ws + x, wt + w)) (0, 0)
  let total := if 0 < weightSum then weighted / weightSum else 0
  ⟨total, bands.classify total, c⟩

example : (computeHealth .fallback ⟨some 80, some 70, some 60, some 75, some 50, some 65⟩
    .fallback).total = 277 / 4 := by decide +kernel

end Qtss.Notify
