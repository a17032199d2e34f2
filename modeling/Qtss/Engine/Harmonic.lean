import Qtss.Engine.Detections
/-
# The harmonic writer (`qtss-engine/src/writers/harmonic.rs`, `qtss-harmonic`)

| here | there |
| --- | --- |
| `RatioRange`, `XabcdPoints`, `matchPattern` | matcher.rs |
| `HarmonicSpec`, `patterns` | patterns.rs |
| `StoredPivot`     | harmonic.rs:56 |
| `alternationOk`, `makeXabcd`, `bestPattern`, `anchorsJson` | harmonic.rs:208, :215, :234, :259 |
| `harmonicRow`, `harmonicRows` | `process_symbol` (:152): the row of a window, and the rows of a slot |

`exp` is the exponential function, whatever it rounds to. Windows are five pivots in a row, in the order in which
`list_pivots_by_slot` gives them.
-/

namespace Qtss.Engine

/-! ## Matching -/

structure RatioRange where
  lo : ℚ
  hi : ℚ

def RatioRange.contains (r : RatioRange) (observed slack : ℚ) : Bool :=
  let span := max (r.hi - r.lo) 0
  let pad := span * slack + slack
  observed ≥ r.lo - pad && observed ≤ r.hi + pad

def RatioRange.center (r : RatioRange) : ℚ := (r.lo + r.hi) / 2

structure XabcdPoints where
  x : ℚ
  a : ℚ
  b : ℚ
  c : ℚ
  d : ℚ

structure Ratios where
  ab : ℚ
  bc : ℚ
  cd : ℚ
  ad : ℚ

def XabcdPoints.ratios (p : XabcdPoints) : Option Ratios :=
  let xa := p.a - p.x
  let ab := p.a - p.b
  let bc := p.c - p.b
  let cd := p.c - p.d
  if xa ≤ 0 ∨ ab ≤ 0 ∨ bc ≤ 0 ∨ cd ≤ 0 then none else some ⟨ab / xa, bc / ab, cd / bc, (p.a - p.d) / xa⟩

def XabcdPoints.cdOverAb (p : XabcdPoints) : Option ℚ :=
  let ab := p.a - p.b
  let cd := p.c - p.d
  if ab ≤ 0 ∨ cd ≤ 0 then none else some (cd / ab)

structure HarmonicSpec where
  name : String
  ab : RatioRange
  bc : RatioRange
  cd : RatioRange
  ad : RatioRange
  cdOverAb : Option RatioRange
  extension : Bool

def patterns : List HarmonicSpec := [
  ⟨"gartley", ⟨55/100, 65/100⟩, ⟨382/1000, 886/1000⟩, ⟨127/100, 1618/1000⟩, ⟨74/100, 82/100⟩, none, false⟩,
  ⟨"bat", ⟨382/1000, 50/100⟩, ⟨382/1000, 886/1000⟩, ⟨1618/1000, 2618/1000⟩, ⟨84/100, 92/100⟩, none, false⟩,
  ⟨"butterfly", ⟨74/100, 82/100⟩, ⟨382/1000, 886/1000⟩, ⟨1618/1000, 2618/1000⟩, ⟨120/100, 165/100⟩, none, true⟩,
  ⟨"crab", ⟨382/1000, 618/1000⟩, ⟨382/1000, 886/1000⟩, ⟨224/100, 3618/1000⟩, ⟨155/100, 170/100⟩, none, true⟩,
  ⟨"deep_crab", ⟨84/100, 92/100⟩, ⟨382/1000, 886/1000⟩, ⟨224/100, 3618/1000⟩, ⟨155/100, 170/100⟩, none, true⟩,
  ⟨"shark", ⟨382/1000, 618/1000⟩, ⟨113/100, 1618/1000⟩, ⟨1618/1000, 224/100⟩, ⟨84/100, 113/100⟩, none, true⟩,
  ⟨"cypher", ⟨382/1000, 618/1000⟩, ⟨113/100, 1414/1000⟩, ⟨1272/1000, 2⟩, ⟨74/100, 82/100⟩, none, false⟩,
  ⟨"alt_bat", ⟨33/100, 44/100⟩, ⟨382/1000, 886/1000⟩, ⟨2, 3618/1000⟩, ⟨108/100, 118/100⟩, none, true⟩,
  ⟨"five_zero", ⟨113/100, 1618/1000⟩, ⟨1618/1000, 224/100⟩, ⟨45/100, 55/100⟩, ⟨-25/100, 35/100⟩,
    some ⟨90/100, 110/100⟩, true⟩,
  ⟨"ab_cd", ⟨20/100, 3⟩, ⟨382/1000, 886/1000⟩, ⟨113/100, 2618/1000⟩, ⟨20/100, 5⟩, some ⟨85/100, 115/100⟩, true⟩,
  ⟨"alt_ab_cd", ⟨20/100, 3⟩, ⟨382/1000, 886/1000⟩, ⟨127/100, 4236/1000⟩, ⟨20/100, 5⟩, some ⟨115/100, 175/100⟩, true⟩,
  ⟨"three_drives", ⟨55/100, 82/100⟩, ⟨113/100, 1618/1000⟩, ⟨55/100, 82/100⟩, ⟨113/100, 180/100⟩, none, true⟩]

section matching
variable (exp : ℚ → ℚ)

def gaussianScore (observed : ℚ) (range : RatioRange) : ℚ :=
  let half := max ((range.hi - range.lo) / 2) (1 / 100)
  let z := (observed - range.center) / half
  exp (-(z * z) / 2)

def scoreAgainstRanges (o : Ratios) (spec : HarmonicSpec) : ℚ :=
  (gaussianScore exp o.ab spec.ab + gaussianScore exp o.bc spec.bc + gaussianScore exp o.cd spec.cd +
    gaussianScore exp o.ad spec.ad) / 4

/-- matcher.rs:84. -/
def matchPattern (spec : HarmonicSpec) (pts : XabcdPoints) (slack : ℚ) : Option ℚ := do
  let o ← pts.ratios
  if !(spec.ab.contains o.ab slack && spec.bc.contains o.bc slack && spec.cd.contains o.cd slack &&
      spec.ad.contains o.ad slack) then none
  else
    match spec.cdOverAb with
    | some crossRange =>
      let rCross ← pts.cdOverAb
      if !crossRange.contains rCross slack then none
      else some ((scoreAgainstRanges exp o spec * 4 + gaussianScore exp rCross crossRange) / 5)
    | none => some (scoreAgainstRanges exp o spec)

/-- harmonic.rs:234: the first of the best. -/
def bestPattern (pts : XabcdPoints) (slack : ℚ) : Option (HarmonicSpec × ℚ) :=
  patterns.foldl (fun best spec =>
    match matchPattern exp spec pts slack with
    | some score => if best.all fun b => score > b.2 then some (spec, score) else best
    | none => best) none

end matching

/-! ## Windows -/

structure StoredPivot where
  barIndex : ℤ
  openTime : DateTime
  direction : ℤ
  price : ℚ
deriving DecidableEq

structure Window where
  x : StoredPivot
  a : StoredPivot
  b : StoredPivot
  c : StoredPivot
  d : StoredPivot

def windows : List StoredPivot → List Window
  | x :: rest@(a :: b :: c :: d :: _) => ⟨x, a, b, c, d⟩ :: windows rest
  | _ => []

def alternationOk (w : Window) : Bool :=
  let differ := fun p q : StoredPivot => p.direction.sign != q.direction.sign
  differ w.x w.a && differ w.a w.b && differ w.b w.c && differ w.c w.d

def makeXabcd (w : Window) (bullish : Bool) : XabcdPoints :=
  let p := fun v : StoredPivot => if bullish then v.price else -v.price
  ⟨p w.x, p w.a, p w.b, p w.c, p w.d⟩

/-- harmonic.rs:259. -/
def anchorsJson (rfc3339 : DateTime → String) (w : Window) : Json :=
  let anchor := fun (label : String) (p : StoredPivot) =>
    (labelled rfc3339 label p.barIndex p.price p.openTime).set "direction" (.int p.direction.sign)
  .arr [anchor "X" w.x, anchor "A" w.a, anchor "B" w.b, anchor "C" w.c, anchor "D" w.d]

def ratiosMeta (pts : XabcdPoints) : Json :=
  match pts.ratios with
  | some o => .obj [("ab", .float o.ab), ("bc", .float o.bc), ("cd", .float o.cd), ("ad", .float o.ad)]
  | none => .null

/-! ## Rows -/

structure HarmonicConfig where
  minScore : ℚ
  slack : ℚ

/-- The row of a window that matches the spec with that score. -/
def harmonicDetection (rfc3339 : DateTime → String) (series : Series) (slot : ℤ) (w : Window) (spec : HarmonicSpec)
    (score : ℚ) : DetectionKey × Detection :=
  let bullish := w.x.direction < 0
  ({ series := series, slot := slot, patternFamily := "harmonic"
     subkind := spec.name ++ "_" ++ (if bullish then "bull" else "bear")
     startTime := w.x.openTime, endTime := w.d.openTime, mode := "live" },
   { direction := if bullish then 1 else -1
     startBar := w.x.barIndex, endBar := w.d.barIndex, anchors := anchorsJson rfc3339 w, invalidated := false
     rawMeta := .obj [("score", .float score), ("ratios", ratiosMeta (makeXabcd w bullish)),
       ("extension", .bool spec.extension)] })

def harmonicRow (exp : ℚ → ℚ) (rfc3339 : DateTime → String) (cfg : HarmonicConfig) (series : Series) (slot : ℤ)
    (w : Window) : Option (DetectionKey × Detection) := do
  if !alternationOk w then none
  else
    let (spec, score) ← bestPattern exp (makeXabcd w (w.x.direction < 0)) cfg.slack
    if score < cfg.minScore then none else some (harmonicDetection rfc3339 series slot w spec score)

/-- harmonic.rs:152, one slot. -/
def harmonicRows (exp : ℚ → ℚ) (rfc3339 : DateTime → String) (cfg : HarmonicConfig) (series : Series) (slot : ℤ)
    (pivots : List StoredPivot) : List (DetectionKey × Detection) :=
  (windows pivots).filterMap (harmonicRow exp rfc3339 cfg series slot)

/-! ## What is written -/

variable {exp : ℚ → ℚ} {rfc3339 : DateTime → String} {cfg : HarmonicConfig} {series : Series} {slot : ℤ}
  {pivots : List StoredPivot} {w : Window} {row : DetectionKey × Detection}

theorem harmonicRow_eq_some (h : harmonicRow exp rfc3339 cfg series slot w = some row) :
    ∃ spec score, row = harmonicDetection rfc3339 series slot w spec score := by
  unfold harmonicRow at h
  split at h
  next => cases h
  next =>
    obtain ⟨⟨spec, score⟩, -, hrow⟩ := Option.bind_eq_some_iff.1 h
    simp only at hrow
    split at hrow
    next => cases hrow
    next => exact ⟨spec, score, (Option.some.inj hrow).symm⟩

theorem mem_harmonicRows (h : row ∈ harmonicRows exp rfc3339 cfg series slot pivots) :
    ∃ w ∈ windows pivots, ∃ spec score, row = harmonicDetection rfc3339 series slot w spec score := by
  obtain ⟨w, hw, hrow⟩ := List.mem_filterMap.1 h
  exact ⟨w, hw, harmonicRow_eq_some hrow⟩

end Qtss.Engine
