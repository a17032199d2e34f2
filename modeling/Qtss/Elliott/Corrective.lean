import Qtss.Elliott.PinePort
/-
# Corrective sub-types (`qtss-elliott/src/pine_port_corrective.rs`)

| here | there |
| --- | --- |
| `flatSubtypes`, `flatMinBRatio`, `classifyAbcSubkind` | `FLAT_SUBTYPES`, `FLAT_MIN_B_RATIO`, `classify_abc_subkind` (:74) |
| `triangleSubtypes`, `detectTriangle` | `TRIANGLE_SUBTYPES`, `detect_triangle` (:115) |
| `TrianglePattern` | luxalgo_pine_port.rs:188 |

This "only annotates": nothing here changes an anchor.
-/

namespace Qtss.Elliott

/-! ## Flats -/

/-- Label, least B ratio, least and largest C ratio. -/
def flatSubtypes : List (String × ℚ × ℚ × ℚ) :=
  [("flat_running", 105 / 100, 0, 1), ("flat_expanded", 105 / 100, 105 / 100, 2),
    ("flat_regular", 90 / 100, 85 / 100, 115 / 100)]

def flatMinBRatio : ℚ := 90 / 100

/-- `f64::signum`: one at zero. -/
def signum (x : ℚ) : ℤ := if x < 0 then -1 else 1

def classifyAbcSubkind (abc : AbcPattern) : String :=
  let price := fun i => (abc.anchors i).price
  let aLeg := price 1 - price 0
  let bLeg := price 2 - price 1
  let cLeg := price 3 - price 2
  if |aLeg| = 0 ∨ cLeg = 0 then "zigzag"
  else if signum aLeg ≠ signum cLeg then "zigzag"
  else if signum bLeg = signum aLeg then "zigzag"
  else
    let bRatio := |bLeg| / |aLeg|
    if bRatio < flatMinBRatio then "zigzag"
    else
      let cRatio := |cLeg| / |aLeg|
      ((flatSubtypes.find? fun row => bRatio ≥ row.2.1 && cRatio ≥ row.2.2.1 && cRatio ≤ row.2.2.2).map (·.1)).getD
        "zigzag"

/-! ## Triangles -/

structure TrianglePattern where
  direction : ℤ
  subkind : String
  anchors : Fin 6 → PivotPoint
  invalidated : Bool

def barrierFlatTol : ℚ := 5 / 100

def isContracting (topRatio botRatio : ℚ) : Bool := topRatio < 1 && botRatio < 1

def isExpanding (topRatio botRatio : ℚ) : Bool := topRatio > 1 && botRatio > 1

def isBarrier (topRatio botRatio : ℚ) : Bool :=
  let topFlat := decide (|topRatio - 1| < barrierFlatTol)
  let botFlat := decide (|botRatio - 1| < barrierFlatTol)
  (topFlat && botRatio < 1) || (botFlat && topRatio < 1)

def triangleSubtypes : List (String × (ℚ → ℚ → Bool)) :=
  [("triangle_contracting", isContracting), ("triangle_expanding", isExpanding), ("triangle_barrier", isBarrier)]

/-- From the last six pivots. -/
def detectTriangle (pivots : List PivotPoint) : Option TrianglePattern :=
  if h : pivots.length < 6 then none
  else
    let tail : Fin 6 → PivotPoint := fun i => pivots.get ⟨pivots.length - 6 + i, by omega⟩
    if ∃ i : Fin 5, (tail i.succ).direction.sign = (tail i.castSucc).direction.sign then none
    else
      let p := fun i => (tail i).price
      let aLeg := p 1 - p 0
      if aLeg = 0 then none
      else
        let odd := (|p 3 - p 1|, |p 5 - p 3|)
        let even := (|p 2 - p 0|, |p 4 - p 2|)
        let top := if aLeg < 0 then even else odd
        let bot := if aLeg < 0 then odd else even
        if top.1 = 0 ∨ bot.1 = 0 then none
        else
          (triangleSubtypes.find? fun row => row.2 (top.2 / top.1) (bot.2 / bot.1)).map fun row =>
            ⟨if aLeg < 0 then -1 else 1, row.1, tail, false⟩

end Qtss.Elliott
