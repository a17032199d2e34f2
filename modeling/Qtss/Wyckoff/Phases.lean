import Mathlib.Data.List.Sort
import Qtss.Lib.Float64
/-
# Schematic phases (`qtss-wyckoff/src/phases.rs`)

"Maps a stream of Wyckoff events plus the underlying bar tape to a sequence of `WyckoffSchematicSpan`s — one per
phase".

| here | there |
| --- | --- |
| `WyckoffEventKind`, `WyckoffEvent` | event.rs:9, :70 |
| `WyckoffSchematicSpan`, `EventAnchor` | phases.rs:71, :94 |
| `splitIntoCycles`   | phases.rs:452; `Splitting` is the state of its loop |
| `phaseBounds`, `classifySide` | the anchors (:568-655) and the spans (:657-760) of `classify_side` |
| `clipSpan`          | the loop body of `clip_spans_by_opposite_anchors` (:498) |
| `yieldTo`           | the body of the double loop of `enforce_intra_side_sequencing` (:282-297) |
| `classifySchematicPhases` | phases.rs:185 |

Bar indices are natural numbers, `saturating_sub` is their subtraction.
-/

namespace Qtss.Wyckoff

inductive WyckoffEventKind where
  | ps | sc | ar | st | spring | test | sos | lps | bu | bc | utad | sow | ut | msow
deriving DecidableEq, Repr

def WyckoffEventKind.asStr : WyckoffEventKind → String
  | .ps => "ps"
  | .sc => "sc"
  | .ar => "ar"
  | .st => "st"
  | .spring => "spring"
  | .test => "test"
  | .sos => "sos"
  | .lps => "lps"
  | .bu => "bu"
  | .bc => "bc"
  | .utad => "utad"
  | .sow => "sow"
  | .ut => "ut"
  | .msow => "msow"

/-- `variant` is "bull" or "bear". -/
structure WyckoffEvent where
  kind : WyckoffEventKind
  variant : String
  barIndex : ℕ
  referencePrice : F64
deriving DecidableEq

structure Bar where
  high : ℚ
  low : ℚ

inductive WyckoffSchematicPhase where
  | a | b | c | d | e
deriving DecidableEq, Repr

inductive WyckoffSchematicDirection where
  | accumulation | distribution
deriving DecidableEq, Repr

structure EventAnchor where
  kind : String
  barIndex : ℕ
  price : F64
deriving DecidableEq

/-- Both bars belong to the phase. -/
structure WyckoffSchematicSpan where
  phase : WyckoffSchematicPhase
  direction : WyckoffSchematicDirection
  startBar : ℕ
  endBar : ℕ
  phaseHigh : F64
  phaseLow : F64
  anchorEvents : List EventAnchor
  completed : Bool
deriving DecidableEq

def schematicPhaseRank : WyckoffSchematicPhase → ℕ
  | .a => 0
  | .b => 1
  | .c => 2
  | .d => 3
  | .e => 4

abbrev WyckoffSchematicSpan.rank (s : WyckoffSchematicSpan) : ℕ := schematicPhaseRank s.phase

/-! ## Cycles -/

structure Splitting where
  groups : List (List WyckoffEvent)
  current : List WyckoffEvent
  lastWasBu : Bool

def isCycleStart (kind : WyckoffEventKind) : Bool := kind ∈ [.ps, .sc, .bc, .spring, .utad]

/-- "this event is a fresh PS/SC/Spring AND we've already seen a BU/JAC in the current group". -/
def Splitting.next (s : Splitting) (ev : WyckoffEvent) : Splitting :=
  let s := if s.lastWasBu && isCycleStart ev.kind && !s.current.isEmpty then ⟨s.groups ++ [s.current], [], false⟩ else s
  { s with current := s.current ++ [ev], lastWasBu := s.lastWasBu || ev.kind = .bu }

def splitIntoCycles (sorted : List WyckoffEvent) : List (List WyckoffEvent) :=
  let s := sorted.foldl Splitting.next ⟨[], [], false⟩
  if s.current.isEmpty then s.groups else s.groups ++ [s.current]

/-! ## One side -/

/-- The highest high and the lowest low, 0 where there is none. -/
def barBounds (toF64 : ℚ → Option F64) (bars : List Bar) (start last : ℕ) : F64 × F64 :=
  if bars.isEmpty then (.fin 0, .fin 0)
  else
    let s := min start (bars.length - 1)
    let e := max (min last (bars.length - 1)) s
    let (hi, lo) := ((bars.drop s).take (e - s + 1)).foldl (fun (hi, lo) b =>
      let h := (toF64 b.high).getD (.fin 0)
      let l := (toF64 b.low).getD (.fin 0)
      (if F64.lt hi h then h else hi, if F64.lt l lo then l else lo)) (F64.negInf, F64.posInf)
    (if hi.isFinite then hi else .fin 0, if lo.isFinite then lo else .fin 0)

def byKind (kind : WyckoffEventKind) (events : List WyckoffEvent) : List WyckoffEvent :=
  events.filter fun e => e.kind = kind

def firstBar (events : List WyckoffEvent) : Option ℕ := events.head?.map (·.barIndex)

def lastBar (events : List WyckoffEvent) : Option ℕ := events.getLast?.map (·.barIndex)

/-- The events from a bar on, none without a bar. -/
def fromBar (bar : Option ℕ) (events : List WyckoffEvent) : List WyckoffEvent :=
  events.filter fun e => (bar.map fun b => decide (b ≤ e.barIndex)).getD false

def within (s e : ℕ) (events : List WyckoffEvent) : List WyckoffEvent :=
  events.filter fun x => s ≤ x.barIndex && x.barIndex ≤ e

def climaxKind : WyckoffSchematicDirection → WyckoffEventKind
  | .accumulation => .sc
  | .distribution => .bc

def shakeoutKind : WyckoffSchematicDirection → WyckoffEventKind
  | .accumulation => .spring
  | .distribution => .utad

def signKind : WyckoffSchematicDirection → WyckoffEventKind
  | .accumulation => .sos
  | .distribution => .sow

structure PhaseBounds where
  aStart : Option ℕ
  aEnd : Option ℕ
  cStart : Option ℕ
  cEnd : Option ℕ
  dStart : Option ℕ
  dEnd : Option ℕ

def phaseBounds (direction : WyckoffSchematicDirection) (events : List WyckoffEvent) : PhaseBounds :=
  let springOrUtad := byKind (shakeoutKind direction) events
  let aEnd := (lastBar ((byKind .st events).filter fun e =>
    (springOrUtad.head?.map fun sp => decide (e.barIndex < sp.barIndex)).getD true)).or (firstBar (byKind .ar events))
  let cStart := firstBar springOrUtad
  let cEnd := (lastBar (fromBar cStart (byKind .test events))).or cStart
  let dStart := ((byKind (signKind direction) events).find? fun e =>
    (cEnd.map fun c => decide (c < e.barIndex)).getD true).map (·.barIndex)
  let dEnd := ((lastBar (fromBar dStart (byKind .bu events))).or (lastBar (fromBar dStart (byKind .lps events)))).or dStart
  ⟨(firstBar (byKind .ps events)).or (firstBar (byKind (climaxKind direction) events)), aEnd, cStart, cEnd, dStart, dEnd⟩

/-- "capping Phase E at ... `phase_d_end + 3 × max(phase_d_duration, 30)` bars". -/
def phaseEEnd (b : PhaseBounds) (tapeEndBar : ℕ) : ℕ :=
  let lookforward := match b.dStart, b.dEnd with
    | some s, some e => max (e - s) 30 * 3
    | _, _ => 150
  (b.dEnd.map fun s => min (s + lookforward) tapeEndBar).getD tapeEndBar

def WyckoffEvent.toAnchor (e : WyckoffEvent) : EventAnchor := ⟨e.kind.asStr, e.barIndex, e.referencePrice⟩

section side
variable (toF64 : ℚ → Option F64) (bars : List Bar) (tapeEndBar : ℕ) (direction : WyckoffSchematicDirection)

def mkSpan (phase : WyckoffSchematicPhase) (start last : ℕ) (anchors : List WyckoffEvent) : WyckoffSchematicSpan :=
  let (hi, lo) := barBounds toF64 bars start last
  ⟨phase, direction, start, last, hi, lo, anchors.map (·.toAnchor), last < tapeEndBar⟩

def phaseA (events : List WyckoffEvent) (b : PhaseBounds) : List WyckoffSchematicSpan :=
  match b.aStart, b.aEnd with
  | some s, some e =>
    if s ≤ e then
      [mkSpan toF64 bars tapeEndBar direction .a s e
        (byKind .ps events ++ byKind (climaxKind direction) events ++ byKind .ar events
          ++ (byKind .st events).filter (·.barIndex ≤ e))]
    else []
  | _, _ => []

def phaseB (events : List WyckoffEvent) (b : PhaseBounds) : List WyckoffSchematicSpan :=
  match b.aEnd, b.cStart with
  | some aEnd, some cStart =>
    if aEnd + 1 < cStart - 1 then
      [mkSpan toF64 bars tapeEndBar direction .b (aEnd + 1) (cStart - 1)
        ((byKind .st events).filter fun e => aEnd < e.barIndex && e.barIndex < cStart)]
    else []
  | _, _ => []

def phaseC (events : List WyckoffEvent) (b : PhaseBounds) : List WyckoffSchematicSpan :=
  match b.cStart, b.cEnd with
  | some s, some e =>
    [mkSpan toF64 bars tapeEndBar direction .c s e
      (byKind (shakeoutKind direction) events ++ within s e (byKind .test events))]
  | _, _ => []

def phaseD (events : List WyckoffEvent) (b : PhaseBounds) : List WyckoffSchematicSpan :=
  match b.dStart, b.dEnd with
  | some s, some e =>
    [mkSpan toF64 bars tapeEndBar direction .d s e
      (within s e (byKind (signKind direction) events) ++ within s e (byKind .lps events)
        ++ within s e (byKind .bu events))]
  | _, _ => []

def phaseE (b : PhaseBounds) : List WyckoffSchematicSpan :=
  match b.dEnd with
  | some s =>
    if s < phaseEEnd b tapeEndBar then [mkSpan toF64 bars tapeEndBar direction .e s (phaseEEnd b tapeEndBar) []]
    else []
  | none => []

def classifySide (events : List WyckoffEvent) : List WyckoffSchematicSpan :=
  if events.isEmpty then []
  else
    let b := phaseBounds direction events
    phaseA toF64 bars tapeEndBar direction events b ++ phaseB toF64 bars tapeEndBar direction events b
      ++ phaseC toF64 bars tapeEndBar direction events b ++ phaseD toF64 bars tapeEndBar direction events b
      ++ phaseE toF64 bars tapeEndBar direction b

end side

/-! ## Both sides -/

/-- "When an opposite-side Phase A starts INSIDE a span, the span ends at (anchor - 1)." -/
def clipSpan (span : WyckoffSchematicSpan) (a : ℕ) : WyckoffSchematicSpan :=
  if a > span.startBar ∧ a < span.endBar then { span with endBar := max (a - 1) span.startBar } else span

def clipSpansByOppositeAnchors (spans : List WyckoffSchematicSpan) (anchors : List ℕ) : List WyckoffSchematicSpan :=
  spans.map fun span => anchors.foldl clipSpan span

/-- A later phase `x` that starts inside `y`: "the lower-ranked one yields". -/
def yieldTo (x y : WyckoffSchematicSpan) : WyckoffSchematicSpan :=
  if y.direction = x.direction ∧ y.rank < x.rank ∧ y.endBar ≥ x.startBar ∧ y.startBar < x.startBar then
    { y with endBar := x.startBar - 1 }
  else y

def dirRank : WyckoffSchematicDirection → ℕ
  | .accumulation => 0
  | .distribution => 1

/-- `(start_bar, schematic_phase_rank(phase))`. -/
def byStart (s t : WyckoffSchematicSpan) : Prop :=
  s.startBar < t.startBar ∨ s.startBar = t.startBar ∧ s.rank ≤ t.rank

/-- `(dir_rank(direction), start_bar, schematic_phase_rank(phase))`. -/
def bySideAndStart (s t : WyckoffSchematicSpan) : Prop :=
  dirRank s.direction < dirRank t.direction ∨ dirRank s.direction = dirRank t.direction ∧ byStart s t

instance : DecidableRel byStart := fun _ _ => inferInstanceAs (Decidable (_ ∨ _))
instance : DecidableRel bySideAndStart := fun _ _ => inferInstanceAs (Decidable (_ ∨ _))

/-- The fold is the double loop: the spans before `x` yield to it, one `x` after another. -/
def enforceIntraSideSequencing (spans : List WyckoffSchematicSpan) : List WyckoffSchematicSpan :=
  ((spans.insertionSort bySideAndStart).foldl (fun before x => before.map (yieldTo x) ++ [x]) []).filter
    fun s => s.endBar ≥ s.startBar

def phaseAStarts (spans : List WyckoffSchematicSpan) : List ℕ := (spans.filter (·.phase = .a)).map (·.startBar)

def variantOf : WyckoffSchematicDirection → String
  | .accumulation => "bull"
  | .distribution => "bear"

/-- The spans of one side, cycle by cycle, before the mutex. -/
def sideSpans (toF64 : ℚ → Option F64) (events : List WyckoffEvent) (bars : List Bar) (tapeEndBar : ℕ)
    (direction : WyckoffSchematicDirection) : List WyckoffSchematicSpan :=
  let sorted := events.insertionSort fun e e' => e.barIndex ≤ e'.barIndex
  (splitIntoCycles (sorted.filter fun e => e.variant = variantOf direction)).flatMap
    (classifySide toF64 bars tapeEndBar direction)

def classifySchematicPhases (toF64 : ℚ → Option F64) (events : List WyckoffEvent) (bars : List Bar)
    (tapeEndBar : ℕ) : List WyckoffSchematicSpan :=
  if events.isEmpty then []
  else
    let accSpans := sideSpans toF64 events bars tapeEndBar .accumulation
    let distSpans := sideSpans toF64 events bars tapeEndBar .distribution
    let acc := clipSpansByOppositeAnchors accSpans (phaseAStarts distSpans)
    let dist := clipSpansByOppositeAnchors distSpans (phaseAStarts accSpans)
    let out := acc.filter (fun s => s.endBar ≥ s.startBar) ++ dist.filter fun s => s.endBar ≥ s.startBar
    enforceIntraSideSequencing (out.insertionSort byStart)

end Qtss.Wyckoff
