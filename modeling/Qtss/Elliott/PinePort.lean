import Mathlib.Data.Fin.VecNotation
import Qtss.Pivots.Prominence
/-
# The Elliott counts of the Pine port (`qtss-elliott/src/luxalgo_pine_port.rs`): the state of a level

| here | there |
| --- | --- |
| `PivotPoint`, `MotivePattern`, `AbcPattern`, `BreakBox`, `NextMarker` | the output types (:109-220); `pp` (:272) |
| `ZzSlot`, `LevelState` | :284, :291; the ring of eleven slots starts out filled with zero slots |
| `zzPush`, `zzReplaceFront`, `emitPivot` | :311, :317, :322 |
| `isSameMotive`, `isSameAbc` | :398, :408 |
| `processHighPivot`, `processLowPivot` | :416, :594: `processPivot` up and down |
| `processBreakBox` | :760 |

The two handlers mirror each other line by line, so they are one handler with the kind of the pivot, in four stages:
ring and log (`track`), the count 12345 (`count`), ABC (`correct`) and the mark of a new (1) (`hint`). Prices are exact
rationals, on which `Decimal` and `f64` are converted into each other without loss.
-/

namespace Qtss.Elliott
open Pivots

/-! ## Output -/

/-- The anchors of an ABC are numbered by numerals. -/
scoped instance four : NeZero 4 := ⟨by decide⟩

/-- So are those of a motive. -/
scoped instance six : NeZero 6 := ⟨by decide⟩

structure PivotPoint where
  direction : ℤ
  barIndex : ℤ
  price : ℚ
  labelOverride : Option String
  hideLabel : Bool
deriving DecidableEq

structure AbcPattern where
  direction : ℤ
  anchors : Fin 4 → PivotPoint
  invalidated : Bool
  subkind : Option String

structure BreakBox where
  leftBar : ℤ
  rightBar : ℤ
  top : ℚ
  bottom : ℚ

structure Marker where
  direction : ℤ
  barIndex : ℤ
  price : ℚ

abbrev NextMarker := Marker

abbrev BreakMarker := Marker

structure MotivePattern where
  direction : ℤ
  anchors : Fin 6 → PivotPoint
  live : Bool
  nextHint : Bool
  abc : Option AbcPattern
  breakBox : Option BreakBox
  nextMarker : Option NextMarker

def pp (direction barIndex : ℤ) (price : ℚ) : PivotPoint := ⟨direction, barIndex, price, none, false⟩

structure Bar where
  high : ℚ
  low : ℚ
deriving DecidableEq

structure LevelConfig where
  length : ℕ
  color : String

structure PinePortConfig where
  levels : List LevelConfig
  fibLevel1 : ℚ
  fibLevel2 : ℚ
  fibLevel3 : ℚ
  fibLevel4 : ℚ
  minProminencePct : ℚ

/-! ## The state of a level -/

structure ZzSlot where
  d : ℤ
  x : ℤ
  y : ℚ

structure LevelState where
  zz : Fin 11 → ZzSlot
  ew : List MotivePattern
  pivotsLog : List PivotPoint
  breakMarkers : List BreakMarker

def LevelState.new : LevelState := ⟨fun _ => ⟨0, 0, 0⟩, [], [], []⟩

def LevelState.zzPush (s : LevelState) (d x : ℤ) (y : ℚ) : LevelState :=
  { s with zz := Matrix.vecCons ⟨d, x, y⟩ fun i : Fin 10 => s.zz i.castSucc }

def LevelState.zzReplaceFront (s : LevelState) (x : ℤ) (y : ℚ) : LevelState :=
  { s with zz := Function.update s.zz 0 { s.zz 0 with x := x, y := y } }

/-- A pivot of the direction of the last one extends it. -/
def LevelState.emitPivot (s : LevelState) (d x : ℤ) (y : ℚ) : LevelState :=
  match s.pivotsLog.getLast? with
  | some last =>
    if last.direction = d ∧ last.barIndex ≤ x then
      { s with pivotsLog := s.pivotsLog.dropLast ++ [{ last with barIndex := x, price := y }] }
    else { s with pivotsLog := s.pivotsLog ++ [pp d x y] }
  | none => { s with pivotsLog := s.pivotsLog ++ [pp d x y] }

def isSameMotive (m : MotivePattern) (x1 x2 x3 x4 : ℤ) : Bool :=
  (m.anchors 0).barIndex = x1 && (m.anchors 1).barIndex = x2 && (m.anchors 2).barIndex = x3 &&
    (m.anchors 3).barIndex = x4

def isSameAbc (m : MotivePattern) (x1 x2 x3 : ℤ) : Bool :=
  (m.anchors 3).barIndex = x1 && (m.anchors 4).barIndex = x2 && (m.anchors 5).barIndex = x3

/-! ## A pivot -/

section handler
variable (k : PivotKind)

/-- How far it is from `a` to `b`, in the direction of the pivot. -/
def leg (a b : ℚ) : ℚ := k.dir * (b - a)

/-- :430-438; a pivot that is not beyond the front one is dropped. -/
def LevelState.track (s : LevelState) (x : ℤ) (y : ℚ) : LevelState :=
  let dir := (s.zz 0).d
  if k.dir * dir < 1 then (s.zzPush k.dir x y).emitPivot k.dir x y
  else if k.dir * dir = 1 ∧ moreExtreme k y (s.zz 0).y then (s.zzReplaceFront x y).emitPivot k.dir x y
  else s

/-- :450-454, on the slots of the ring, the newest first. -/
def isWave (zz : ℕ → ZzSlot) : Bool :=
  let w5 := leg k (zz 1).y (zz 0).y
  let w3 := leg k (zz 3).y (zz 2).y
  let w1 := leg k (zz 5).y (zz 4).y
  let minLeg := min (min w1 w3) w5
  w3 ≠ minLeg && moreExtreme k (zz 0).y (zz 2).y && moreExtreme k (zz 3).y (zz 5).y &&
    moreExtreme k (zz 1).y (zz 4).y

/-- The slot at an index of the ring. -/
def LevelState.slot (s : LevelState) (i : ℕ) : ZzSlot := if h : i < 11 then s.zz ⟨i, h⟩ else ⟨0, 0, 0⟩

/-- The six anchors, oldest first, with the directions that the handler gives them. -/
def waveAnchors (zz : ℕ → ZzSlot) (firstOverride : Option String) : Fin 6 → PivotPoint :=
  ![pp (-k.dir) (zz 5).x (zz 5).y, { pp k.dir (zz 4).x (zz 4).y with labelOverride := firstOverride },
    pp (-k.dir) (zz 3).x (zz 3).y, pp k.dir (zz 2).x (zz 2).y, pp (-k.dir) (zz 1).x (zz 1).y,
    pp k.dir (zz 0).x (zz 0).y]

def ewCap : ℕ := 15

/-- `ew.insert(0, m)`, and `ew.pop()` above the cap. -/
def insertCapped (m : MotivePattern) (ew : List MotivePattern) : List MotivePattern :=
  let ew := m :: ew
  if ew.length > ewCap then ew.dropLast else ew

/-- The change of the wave at the front, if there is one. -/
def LevelState.modifyFront (s : LevelState) (f : MotivePattern → MotivePattern) : LevelState :=
  { s with ew := s.ew.modifyHead f }

/-- :456-513, 12345. -/
def LevelState.count (s : LevelState) : LevelState :=
  let zz := s.slot
  let same := s.ew.head?.any fun m => isSameMotive m (zz 5).x (zz 4).x (zz 3).x (zz 2).x
  if isWave k zz then
    if same then
      s.modifyFront fun front =>
        { front with anchors := Function.update front.anchors 5 (pp k.dir (zz 0).x (zz 0).y) }
    else
      let fused := s.ew.head?.any fun front => (zz 4).x = (front.anchors 5).barIndex
      let s := if fused then s.modifyFront fun front =>
          { front with anchors := Function.update front.anchors 5 { front.anchors 5 with hideLabel := true } }
        else s
      let wave : MotivePattern :=
        ⟨k.dir, waveAnchors k zz (if fused then some "(5) (1)" else none), true, false, none, none, none⟩
      { s with ew := insertCapped wave s.ew }
  else if same then s.modifyFront fun front => { front with live := false }
  else s

/-- :518-573, the wave at the front and an ABC against it. -/
def correctFront (cfg : PinePortConfig) (zz : ℕ → ZzSlot) (front : MotivePattern) : MotivePattern :=
  let get := front.anchors 5
  let diff := |get.price - (front.anchors 0).price|
  let limit := get.price + k.dir * (diff * cfg.fibLevel4)
  let isValid := (zz 3).x = get.barIndex && moreExtreme k limit (zz 0).y && moreExtreme k limit (zz 2).y &&
    moreExtreme k (zz 1).y get.price
  let sameAbc := front.abc.any fun abc =>
    isSameAbc front (zz 5).x (zz 4).x (zz 3).x && (abc.anchors 1).barIndex > (zz 3).x
  if isValid then
    let width := (zz 0).x - (zz 4).x
    let box : BreakBox := match k with
      | .high => ⟨(zz 0).x, (zz 0).x + width, (zz 0).y, (zz 2).y⟩
      | .low => ⟨(zz 0).x, (zz 0).x + width, (zz 2).y, (zz 0).y⟩
    if sameAbc then
      { front with
        abc := front.abc.map fun abc =>
          { abc with anchors := Function.update abc.anchors 3 (pp k.dir (zz 0).x (zz 0).y) }
        breakBox := some box }
    else
      let anchors := ![pp (-k.dir) (zz 3).x (zz 3).y, pp k.dir (zz 2).x (zz 2).y, pp (-k.dir) (zz 1).x (zz 1).y,
        pp k.dir (zz 0).x (zz 0).y]
      { front with abc := some ⟨k.dir, anchors, false, none⟩, breakBox := some box }
  else if sameAbc then { front with abc := front.abc.map fun abc => { abc with invalidated := true } }
  else front

def LevelState.correct (cfg : PinePortConfig) (s : LevelState) : LevelState :=
  s.modifyFront fun front => if front.direction = -k.dir then correctFront k cfg s.slot front else front

/-- :575-592, "new (1)?". -/
def hintFront (zz : ℕ → ZzSlot) (front : MotivePattern) : MotivePattern :=
  let hasAbc := front.abc.any fun a => a.direction = -k.dir && (a.anchors 2).barIndex = (zz 1).x
  if hasAbc && moreExtreme k (zz 0).y (front.anchors 5).price && !front.nextHint then
    { front with nextHint := true, nextMarker := some ⟨k.dir, (zz 0).x, (zz 0).y⟩ }
  else front

def LevelState.hint (s : LevelState) : LevelState :=
  s.modifyFront fun front => if front.direction = k.dir then hintFront k s.slot front else front

def processPivot (cfg : PinePortConfig) (s : LevelState) (x : ℤ) (y : ℚ) : LevelState :=
  (((s.track k x y).count k).correct k cfg).hint k

end handler

def processHighPivot : PinePortConfig → LevelState → ℤ → ℚ → LevelState := processPivot .high

def processLowPivot : PinePortConfig → LevelState → ℤ → ℚ → LevelState := processPivot .low

/-! ## A bar -/

def processBreakBox (s : LevelState) (bar : Bar) (barIndex : ℤ) : LevelState :=
  match s.ew.head? with
  | none => s
  | some front =>
    match front.breakBox with
    | none => s
    | some bx =>
      if barIndex ≤ bx.rightBar then
        if front.direction = 1 then
          if bar.low < bx.bottom then { s with breakMarkers := s.breakMarkers ++ [⟨-1, barIndex, bar.low⟩] } else s
        else if bar.high > bx.top then { s with breakMarkers := s.breakMarkers ++ [⟨1, barIndex, bar.high⟩] }
        else s
      else s

end Qtss.Elliott
