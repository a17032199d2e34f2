import Qtss.Wyckoff.Phases
/-
# The macro market cycle (`qtss-wyckoff/src/cycle.rs`)

"The four-phase rotation (Accumulation → Markup → Distribution → Markdown)".

| here | there |
| --- | --- |
| `WyckoffCyclePhase`, `WyckoffCycleSource`, `WyckoffCycle` | cycle.rs:39, :52, :65 |
| `computeBounds`     | :124 |
| `detectCycles`      | :164; `Walk` is the state of its loop, `Walk.next` its body |
| `inferredLeg`       | the legs that SC and BC insert (:204-250, :264-309), one definition |
| `openSegment`, `closeSegment` | :1288, :1309 |
| `dedupeConsecutiveSamePhase` | :1100 |
| `enforceNonOverlapWithBars` | :1203; `place` is the body of its loop over the sorted tiles |

`Vec::sort_by` and `sort_by_key` are stable, as `insertionSort` is. The `break` on an empty list of fragments is left
out: an empty list stays empty.
-/

namespace Qtss.Wyckoff

inductive WyckoffCyclePhase where
  | accumulation | markup | distribution | markdown
deriving DecidableEq, Repr

inductive WyckoffCycleSource where
  | event | elliott | confluent
deriving DecidableEq, Repr

structure WyckoffCycle where
  phase : WyckoffCyclePhase
  source : WyckoffCycleSource
  startBar : ℕ
  endBar : ℕ
  startPrice : F64
  endPrice : F64
  phaseHigh : F64
  phaseLow : F64
  completed : Bool
  sourcePatternId : Option String
deriving DecidableEq

/-- A bar with the close, which the macro cycle reads too. -/
structure CycleBar extends Bar where
  close : ℚ

section bars
variable (toF64 : ℚ → Option F64)

def barClose (b : CycleBar) : F64 := (toF64 b.close).getD (.fin 0)

def barHigh (b : CycleBar) : F64 := (toF64 b.high).getD (.fin 0)

def barLow (b : CycleBar) : F64 := (toF64 b.low).getD (.fin 0)

/-- The highest high and the lowest low, the reference where there is none. -/
def computeBounds (bars : List CycleBar) (start last : ℕ) (reference : F64) : F64 × F64 :=
  if bars.isEmpty then (reference, reference)
  else
    let s := min start (bars.length - 1)
    let e := max (min last (bars.length - 1)) s
    let (hi, lo) := ((bars.drop s).take (e - s + 1)).foldl (fun (hi, lo) b =>
      let h := barHigh toF64 b
      let l := barLow toF64 b
      (if h.isFinite && F64.lt hi h then h else hi, if l.isFinite && F64.lt l lo then l else lo)) (F64.negInf, F64.posInf)
    if !hi.isFinite || !lo.isFinite then (reference, reference) else (hi, lo)

/-! ## From the events -/

def openSegment (phase : WyckoffCyclePhase) (source : WyckoffCycleSource) (bar : ℕ) (price : F64)
    (sourcePatternId : Option String) : WyckoffCycle :=
  ⟨phase, source, bar, bar, price, price, price, price, false, sourcePatternId⟩

variable (bars : List CycleBar)

def closeSegment (cur : WyckoffCycle) (endBar : ℕ) (endPrice : F64) : WyckoffCycle :=
  let last := max endBar cur.startBar
  let (hi, lo) := computeBounds toF64 bars cur.startBar last cur.startPrice
  { cur with endBar := last, endPrice := endPrice, completed := true, phaseHigh := hi, phaseLow := lo }

/-- The first bar of `lo .. hi` with the best price, from a bar and a price to start with. -/
def scanBest (price : CycleBar → F64) (better : F64 → F64 → Bool) (worst : F64) (lo hi : ℕ) : ℕ × F64 :=
  (List.range' lo (hi - lo)).foldl (fun (idx, best) i =>
    match bars[i]? with
    | some b => if better (price b) best then (i, price b) else (idx, best)
    | none => (idx, best)) (hi - 1, worst)

/-- "Insert an INFERRED Markup tile ... so the rotation alternates correctly": a leg from the best bar of the tile just
closed, or the bar after its start, to the event. -/
def inferredLeg (phase : WyckoffCyclePhase) (prevStart : ℕ) (ev : WyckoffEvent) (found : ℕ × F64) : List WyckoffCycle :=
  let price := if found.2.isFinite then found.2 else ev.referencePrice
  let idx := if found.1 ≤ prevStart then prevStart + 1 else found.1
  if idx < ev.barIndex then
    [closeSegment toF64 bars (openSegment phase .event idx price none) ev.barIndex ev.referencePrice]
  else []

structure Walk where
  out : List WyckoffCycle
  current : Option WyckoffCycle

/-- Close the current tile, if there is one, then `legs`, and open a tile of the phase. -/
def Walk.turn (w : Walk) (ev : WyckoffEvent) (phase : WyckoffCyclePhase) (legs : WyckoffCycle → List WyckoffCycle) : Walk :=
  { out := w.out ++ w.current.toList.flatMap fun prev =>
      closeSegment toF64 bars prev ev.barIndex ev.referencePrice :: legs prev
    current := some (openSegment phase .event ev.barIndex ev.referencePrice none) }

/-- The transition of the event. -/
def Walk.react (w : Walk) (ev : WyckoffEvent) : Walk :=
  match ev.kind with
  | .sc => w.turn toF64 bars ev .accumulation fun prev =>
      if prev.phase = .distribution then
        inferredLeg toF64 bars .markdown prev.startBar ev
          (scanBest bars (barHigh toF64) (fun h best => F64.lt best h) .negInf prev.startBar ev.barIndex)
      else []
  | .bc => w.turn toF64 bars ev .distribution fun prev =>
      if prev.phase = .accumulation then
        inferredLeg toF64 bars .markup prev.startBar ev
          (scanBest bars (barLow toF64) (fun l best => F64.lt l best) .posInf prev.startBar ev.barIndex)
      else []
  | .bu | .sos | .lps =>
    if w.current.map (·.phase) = some .accumulation then w.turn toF64 bars ev .markup fun _ => [] else w
  | .sow =>
    if w.current.map (·.phase) = some .distribution then w.turn toF64 bars ev .markdown fun _ => [] else w
  | _ => w

/-- The current tile reaches to the event. -/
def Walk.extend (w : Walk) (ev : WyckoffEvent) : Walk :=
  { w with current := w.current.map fun cur =>
      if ev.barIndex > cur.endBar then { cur with endBar := ev.barIndex, endPrice := ev.referencePrice } else cur }

def Walk.next (w : Walk) (ev : WyckoffEvent) : Walk := (w.react toF64 bars ev).extend ev

/-- The last tile reaches to the end of the tape. -/
def Walk.finish (w : Walk) (tapeEndBar : ℕ) (tapeEndPrice : F64) : List WyckoffCycle :=
  w.out ++ w.current.toList.map fun cur =>
    let last := max tapeEndBar cur.endBar
    let (hi, lo) := computeBounds toF64 bars cur.startBar last cur.startPrice
    { cur with endBar := last, endPrice := tapeEndPrice, phaseHigh := hi, phaseLow := lo }

def detectCycles (events : List WyckoffEvent) (tapeEndBar : ℕ) (tapeEndPrice : F64) : List WyckoffCycle :=
  ((events.insertionSort fun e e' => e.barIndex ≤ e'.barIndex).foldl (Walk.next toF64 bars) ⟨[], none⟩).finish
    toF64 bars tapeEndBar tapeEndPrice

end bars

/-! ## One timeline -/

def sourceRank : WyckoffCycleSource → ℕ
  | .confluent => 3
  | .elliott => 2
  | .event => 1

def sourcePriority (a b : WyckoffCycleSource) : WyckoffCycleSource := if sourceRank a ≥ sourceRank b then a else b

/-- `[start_bar, end_bar)`. -/
abbrev WyckoffCycle.range (c : WyckoffCycle) : ℕ × ℕ := (c.startBar, c.endBar)

/-- "Sorting tiles by source priority DESC (Confluent > Elliott > Event), then by length DESC". -/
def placedBefore (a b : WyckoffCycle) : Prop :=
  sourceRank b.source < sourceRank a.source ∨
    sourceRank a.source = sourceRank b.source ∧ b.endBar - b.startBar ≤ a.endBar - a.startBar

instance : DecidableRel placedBefore := fun _ _ => inferInstanceAs (Decidable (_ ∨ _))

/-- What is left of the segment next to the tile. -/
def aroundTile (p : WyckoffCycle) (segment : ℕ × ℕ) : List (ℕ × ℕ) :=
  let (s, e) := segment
  let ovs := max s p.startBar
  let ove := min e p.endBar
  if ovs ≥ ove then [(s, e)]
  else (if s < ovs then [(s, ovs)] else []) ++ (if ove < e then [(ove, e)] else [])

section passes
variable (toF64 : ℚ → Option F64) (bars : List CycleBar)

/-- The tile on one of its fragments, its prices read off the bars. -/
def clippedTo (c : WyckoffCycle) (segment : ℕ × ℕ) : WyckoffCycle :=
  let (s, e) := segment
  let c := { c with startBar := s, endBar := e }
  if bars.isEmpty then c
  else
    let startPrice := (bars[s]?.map (barClose toF64)).getD c.startPrice
    let endPrice := (bars[min e (bars.length - 1)]?.map (barClose toF64)).getD c.endPrice
    let (hi, lo) := computeBounds toF64 bars s e startPrice
    { c with startPrice := startPrice, endPrice := endPrice, phaseHigh := hi, phaseLow := lo }

/-- "Each tile is \"placed\" by trimming it against everything already placed." -/
def place (placed : List WyckoffCycle) (c : WyckoffCycle) : List WyckoffCycle :=
  let alive := placed.foldl (fun alive p => alive.flatMap (aroundTile p)) [c.range]
  placed ++ (alive.filter fun (s, e) => e > s).map (clippedTo toF64 bars c)

def enforceNonOverlapWithBars (cycles : List WyckoffCycle) : List WyckoffCycle :=
  if cycles.isEmpty then cycles
  else ((cycles.insertionSort placedBefore).foldl (place toF64 bars) []).insertionSort fun a b => a.startBar ≤ b.startBar

end passes

/-- "Same phase consecutive → fuse." -/
def fuse (prev c : WyckoffCycle) : WyckoffCycle :=
  { prev with
    endBar := if c.endBar > prev.endBar then c.endBar else prev.endBar
    endPrice := if c.endBar > prev.endBar then c.endPrice else prev.endPrice
    phaseHigh := if F64.lt prev.phaseHigh c.phaseHigh then c.phaseHigh else prev.phaseHigh
    phaseLow := if F64.lt c.phaseLow prev.phaseLow then c.phaseLow else prev.phaseLow
    source := sourcePriority prev.source c.source
    completed := c.completed
    sourcePatternId := prev.sourcePatternId.or c.sourcePatternId }

/-- `out`, newest first. -/
def fuseNext (out : List WyckoffCycle) (c : WyckoffCycle) : List WyckoffCycle :=
  match out with
  | [] => [c]
  | prev :: older => if prev.phase = c.phase then fuse prev c :: older else c :: prev :: older

/-- `(start_bar, end_bar)`. -/
def byRange (a b : WyckoffCycle) : Prop :=
  a.startBar < b.startBar ∨ a.startBar = b.startBar ∧ a.endBar ≤ b.endBar

instance : DecidableRel byRange := fun _ _ => inferInstanceAs (Decidable (_ ∨ _))

def dedupeConsecutiveSamePhase (cycles : List WyckoffCycle) : List WyckoffCycle :=
  ((cycles.insertionSort byRange).foldl fuseNext []).reverse

end Qtss.Wyckoff
