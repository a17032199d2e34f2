import Qtss.Elliott.Corrective
/-
# The Elliott counts of the Pine port: `run` (luxalgo_pine_port.rs:795)

| here | there |
| --- | --- |
| `samplesFromBars` | `samples_from_bars` (:382) |
| `provisionalPivot` | `provisional_pivot` (:357) |
| `replay`          | the loop over the bars (:818) |
| `fuseLabels`, `fibBand`, `placedTriangles` | :848, :868, :955 |
| `runLevel`, `run` | :804-979 |

`time` in a sample is the clock, which the detector copies and no one reads: 0 here.
-/

namespace Qtss.Elliott
open Pivots

structure FibBand where
  xAnchor : ℤ
  xFar : ℤ
  poleTop : ℚ
  poleBottom : ℚ
  y500 : ℚ
  y618 : ℚ
  y764 : ℚ
  y854 : ℚ
  broken : Bool

structure LevelOutput where
  length : ℕ
  color : String
  pivots : List PivotPoint
  motives : List MotivePattern
  breakMarkers : List BreakMarker
  fibBand : Option FibBand
  triangles : List TrianglePattern

structure PinePortOutput where
  barCount : ℤ
  levels : List LevelOutput

def samplesFromBars (bars : List Bar) : List (Sample ℚ) := bars.zipIdx.map fun p => ⟨p.2, 0, p.1.high, p.1.low, 0⟩

def Bar.value (b : Bar) : PivotKind → ℚ
  | .high => b.high
  | .low => b.low

/-! ## The swings of a level -/

/-- A pivot as the handlers get it. -/
structure Swing where
  kind : PivotKind
  barIndex : ℤ
  price : ℚ
deriving DecidableEq

def Swing.of (p : ConfirmedPivot ℚ) : Swing := ⟨p.kind, p.barIndex, p.price⟩

/-- The first of the most extreme bars of the other kind since the last pivot. -/
def provisionalPivot (pivots : List (ConfirmedPivot ℚ)) (bars : List Bar) : Option Swing := do
  let last ← pivots.getLast?
  let kind := last.kind.opposite
  match bars.zipIdx.drop (last.barIndex + 1) with
  | [] => none
  | start :: rest =>
    some (rest.foldl (fun best p =>
      if moreExtreme kind (p.1.value kind) best.price then ⟨kind, p.2, p.1.value kind⟩ else best)
      ⟨kind, start.2, start.1.value kind⟩)

def processSwing (cfg : PinePortConfig) (s : LevelState) (w : Swing) : LevelState :=
  match w.kind with
  | .high => processHighPivot cfg s w.barIndex w.price
  | .low => processLowPivot cfg s w.barIndex w.price

/-- One bar of the loop: the pivots at the bar, and the break box. -/
def onBar (cfg : PinePortConfig) (acc : LevelState × List (ConfirmedPivot ℚ)) (bar : Bar × ℕ) :
    LevelState × List (ConfirmedPivot ℚ) :=
  let here := acc.2.takeWhile (·.barIndex = bar.2)
  let s := here.foldl (fun s p => processSwing cfg s (.of p)) acc.1
  (processBreakBox s bar.1 bar.2, acc.2.dropWhile (·.barIndex = bar.2))

def replay (cfg : PinePortConfig) (bars : List Bar) (pivots : List (ConfirmedPivot ℚ)) : LevelState :=
  (bars.zipIdx.foldl (onBar cfg) (LevelState.new, pivots)).1

/-! ## After the last bar -/

def fuseLabels (ew : List MotivePattern) : List MotivePattern :=
  match ew with
  | m0 :: m1 :: rest =>
    if m1.abc.any fun abc => (abc.anchors 3).barIndex = (m0.anchors 2).barIndex then
      let hide := fun (a : Fin 6 → PivotPoint) i => Function.update a i { a i with hideLabel := true }
      let relabel := fun (a : Fin 4 → PivotPoint) i l => Function.update a i { a i with labelOverride := some l }
      { m0 with anchors := hide (hide m0.anchors 1) 2 } ::
        { m1 with abc := m1.abc.map fun abc =>
            { abc with anchors := relabel (relabel abc.anchors 2 "(b) (1)") 3 "(c) (2)" } } :: rest
    else ew
  | _ => ew

def fibBand (cfg : PinePortConfig) (bars : List Bar) (ew : List MotivePattern) : Option FibBand := do
  let front ← ew.head?
  if !front.live then none
  else if front.abc.any fun abc => (abc.anchors 3).barIndex > (front.anchors 5).barIndex then none
  else
    let last0 := (front.anchors 0).price
    let last6x := (front.anchors 5).barIndex
    let last6 := (front.anchors 5).price
    let diff := |last6 - last0|
    let bull := decide (front.direction = 1)
    let level := fun fib => last6 + (if bull then -1 else 1) * diff * fib
    let y854 := level cfg.fibLevel4
    let broken := (bars.drop (max last6x 0).toNat).any fun b => if bull then b.low < y854 else b.high > y854
    some ⟨last6x, bars.length - 1 + 10, max last6 y854, min last6 y854, level cfg.fibLevel1, level cfg.fibLevel2,
      level cfg.fibLevel3, y854, broken⟩

def labelSubkind (m : MotivePattern) : MotivePattern :=
  { m with abc := m.abc.map fun abc => { abc with subkind := some (classifyAbcSubkind abc) } }

/-- A triangle stays if it lies in the wave 4 of a motive. -/
def placedTriangles (log : List PivotPoint) (motives : List MotivePattern) : List TrianglePattern :=
  (detectTriangle log).toList.filter fun tri =>
    motives.any fun m => decide (∀ i, (m.anchors 3).barIndex < (tri.anchors i).barIndex ∧
      (tri.anchors i).barIndex < (m.anchors 4).barIndex)

/-- The pivots that the detector and the filter give. -/
def levelPivots (bars : List Bar) (cfg : PinePortConfig) (lc : LevelConfig) : List (ConfirmedPivot ℚ) :=
  filterProminence (computePivots (samplesFromBars bars) (lc.length % 2 ^ 32)) cfg.minProminencePct

def runLevel (bars : List Bar) (cfg : PinePortConfig) (lc : LevelConfig) : LevelOutput :=
  let pivots := levelPivots bars cfg lc
  let s := replay cfg bars pivots
  let s := (provisionalPivot pivots bars).elim s (processSwing cfg s)
  let ew := fuseLabels s.ew
  let motives := ew.map labelSubkind
  ⟨lc.length, lc.color, s.pivotsLog, motives, s.breakMarkers, fibBand cfg bars ew, placedTriangles s.pivotsLog motives⟩

def run (bars : List Bar) (cfg : PinePortConfig) : PinePortOutput :=
  ⟨bars.length, if bars.isEmpty then [] else cfg.levels.map (runLevel bars cfg)⟩

end Qtss.Elliott
