import Qtss.Notify.Lifecycle
import Qtss.Storage.SetupLifecycle
/-
# The setup watcher (`qtss-worker/src/setup_watcher.rs`)

Each tick reads the open setups, and for each of them advances the trailing stop, runs the Poz Koruma
ratchet, asks for advice near a take-profit and then reports the transitions of the price. Every part
works on the row as it was read at the start of the tick; every write is one `UPDATE … WHERE id = $1`, so
the setups of a tick do not meet and one row is followed here.

| here | there |
| --- | --- |
| `Watched`            | the row, and three records of the run: the stored values of `current_sl`, the events dispatched, the take-profit levels decided |
| `WatcherInput`       | what a tick finds: the price store, the clock, the configuration, the judge |
| `buildState`         | setup_watcher.rs:73; `priceProgressComponents` :106, `actionToKind` :129, `approachingTp` :142, `trailSlFromAnchor` :178 |
| `runTrailAdvance`, `runPozKoruma`, `handleTpApproach`, `handleTpHit` | :274, :310, :192, :381 |
| `onEvent`            | `DbPersistHandler::on_event` (`lifecycle_handlers.rs:41`) |
| `tickOnce`           | the loop body of `tick_once` (:464) |

Every database write succeeds. The health memo and the health snapshots are left out: nothing here reads
them.
-/

namespace Qtss.Worker
open Notify Storage

structure Watched where
  row : SetupRow
  stops : List ℚ
  events : List LifecycleContext
  decided : List (ℕ × SmartTargetAction)
deriving DecidableEq

def Watched.start (row : SetupRow) : Watched := ⟨row, row.currentSl.toList, [], []⟩

/-- One `UPDATE`; the value `current_sl` has after it is recorded. -/
def Watched.update (w : Watched) (f : SetupRow → SetupRow) : Watched :=
  { w with row := f w.row, stops := w.stops ++ (f w.row).currentSl.toList }

structure WatcherConfig where
  weights : HealthWeights
  bands : HealthBands
  pozKoruma : PozKorumaConfig
  smart : SmartTargetCfg
  approach : ApproachCfg
deriving DecidableEq

structure WatcherInput where
  prices : String → String → Option PriceTick
  now : DateTime
  cfg : WatcherConfig
  llm : LlmJudge

/-! ## Reading the row -/

def parseDirection (s : String) : Option SetupDirection :=
  match s.toLower with
  | "long" => some .long
  | "short" => some .short
  | _ => none

def tpFromMeta (rawMeta : List (String × ℚ)) (key : String) : Option ℚ := rawMeta.lookup key

/-- setup_watcher.rs:73. -/
def buildState (row : SetupRow) : Option WatcherSetupState := do
  let direction ← parseDirection row.direction
  let entry ← row.entryPrice
  let sl ← row.currentSl <|> row.koruma <|> row.entrySl
  let tpPrices := [tpFromMeta row.rawMeta "tp1_price", tpFromMeta row.rawMeta "tp2_price",
    tpFromMeta row.rawMeta "tp3_price"]
  -- `tp_hits_bitmap.max(0) & 0xFF`
  let bitmap := (if row.tpHitsBitmap.msb then 0#32 else row.tpHitsBitmap).setWidth 8
  return {
    setupId := row.id, exchange := row.exchange, symbol := row.symbol, direction := direction,
    entryPrice := entry, currentSl := sl, tpPrices := tpPrices, tpHitsBitmap := bitmap,
    entryTouched := row.entryTouchedAt.isSome, openedAt := row.createdAt }

/-- setup_watcher.rs:106. -/
def priceProgressComponents (state : WatcherSetupState) (price : ℚ) : HealthComponents :=
  let entry := state.entryPrice
  let sl := state.currentSl
  let target := (state.tpPrices.filterMap id).getLast?
  let slDist := match state.direction with
    | .long => clamp ((price - sl) / max (entry - sl) (1 / 10 ^ 9)) 0 (3 / 2)
    | .short => clamp ((sl - price) / max (sl - entry) (1 / 10 ^ 9)) 0 (3 / 2)
  let slScore := clamp (slDist / (3 / 2) * 100) 0 100
  let tpScore := target.map fun t => match state.direction with
    | .long => clamp ((price - entry) / max (t - entry) (1 / 10 ^ 9) * 100) 0 100
    | .short => clamp ((entry - price) / max (entry - t) (1 / 10 ^ 9) * 100) 0 100
  let momentum := match tpScore with
    | some tp => 3 / 5 * slScore + 2 / 5 * tp
    | none => slScore
  ⟨some momentum, none, none, none, none, none⟩

/-- setup_watcher.rs:129. "Tighten emits `SlRatcheted` (it's an SL move, not a TP execution)". -/
def actionToKind : SmartTargetAction → LifecycleEventKind
  | .ride => .tpHit
  | .scale => .tpPartial
  | .exit => .tpFinal
  | .tighten | .trail => .slRatcheted

/-- setup_watcher.rs:142: the first level not hit yet that the price is close to, on its near side. -/
def approachingTp (state : WatcherSetupState) (px approachPct : ℚ) : Option ℕ :=
  state.tpPrices.zipIdx.findSome? fun (tp, i) =>
    match tp with
    | none => none
    | some tp =>
      if state.tpHit i then none
      else if tp ≤ 0 then none
      else if |tp - px| / tp > approachPct then none
      else
        let onApproachSide := match state.direction with
          | .long => Decidable.decide (px < tp)
          | .short => Decidable.decide (px > tp)
        if onApproachSide then some (i + 1) else none

/-- setup_watcher.rs:178. -/
def trailSlFromAnchor (direction : SetupDirection) (anchor bufferPct : ℚ) : ℚ :=
  match direction with
  | .long => anchor * (1 - bufferPct)
  | .short => anchor * (1 + bufferPct)

/-! ## Persisting an event -/

/-- The side tables of an event (lifecycle_handlers.rs:64-78). -/
def sideTables (w : Watched) (ctx : LifecycleContext) : Watched :=
  match ctx.kind with
  | .entryTouched => w.update (·.markEntryTouched ctx.emittedAt)
  | .tpHit | .tpPartial | .tpFinal =>
    match ctx.tpIndex with
    | some idx => w.update (·.setTpHitBit idx)
    | none => w
  | _ => w

theorem sideTables_cases (w : Watched) (ctx : LifecycleContext) :
    sideTables w ctx = w ∨ sideTables w ctx = w.update (·.markEntryTouched ctx.emittedAt) ∨
      ∃ idx, sideTables w ctx = w.update (·.setTpHitBit idx) := by
  unfold sideTables
  cases ctx.kind with
  | entryTouched => exact .inr (.inl rfl)
  | tpHit | tpPartial | tpFinal =>
    cases ctx.tpIndex with
    | some idx => exact .inr (.inr ⟨idx, rfl⟩)
    | none => exact .inl rfl
  | _ => exact .inl rfl

/-- lifecycle_handlers.rs:41. -/
def onEvent (w : Watched) (ctx : LifecycleContext) : Watched :=
  let w := sideTables { w with events := w.events ++ [ctx] } ctx
  match ctx.kind.closeReason with
  | some reason => w.update (·.closeSetup reason ctx.price ctx.pnlPct ctx.pnlR ctx.emittedAt)
  | none => w

/-! ## The parts of a tick -/

/-- setup_watcher.rs:274. "Monotonic: SL only tightens." -/
def runTrailAdvance (row : SetupRow) (state : WatcherSetupState) (price : ℚ) (cfg : ApproachCfg)
    (w : Watched) : Watched :=
  if !row.trailMode then w
  else
    match row.trailAnchor with
    | none => w
    | some prevAnchor =>
      if ¬ Tighter state.direction prevAnchor price then w
      else
        let newSl := trailSlFromAnchor state.direction price cfg.trailBufferPct
        if ¬ Tighter state.direction state.currentSl newSl then
          w.update (·.applyTrailAdvance price state.currentSl)
        else w.update (·.applyTrailAdvance price newSl)

/-- setup_watcher.rs:319-336. -/
def ratchetInput (row : SetupRow) (state : WatcherSetupState) (tickMid : ℚ) : RatchetInput where
  direction := state.direction
  entryPrice := state.entryPrice
  currentPrice := tickMid
  originalSl := (row.entrySl <|> row.koruma).getD state.currentSl
  currentSl := state.currentSl
  referencePrice := row.ratchetReferencePrice
  cumulativePct := row.ratchetCumulativePct.getD 0
  lastUpdateAt := row.ratchetLastUpdateAt

/-- setup_watcher.rs:310. -/
def runPozKoruma (row : SetupRow) (state : WatcherSetupState) (tickMid : ℚ) (cfg : PozKorumaConfig)
    (health : HealthScore) (now : DateTime) (w : Watched) : Watched :=
  let input := ratchetInput row state tickMid
  match evaluate input cfg now with
  | .noChange => w
  | .referenceOnly newReferencePrice _ at_ =>
    w.update (·.applyRatchetUpdate none newReferencePrice input.cumulativePct at_)
  | .ratcheted step =>
    let w := w.update
      (·.applyRatchetUpdate (some step.newSl) step.newReferencePrice step.newCumulativePct step.at_)
    let decision : LifecycleDecision := ⟨.slRatcheted, none, step.newSl⟩
    let reasoning := [.lit "Poz Koruma: günlük +", .dec step.gainedPct, .lit "% kilitlendi (toplam ",
      .dec step.newCumulativePct, .lit "%)"]
    onEvent w { makeContext state decision (some health) step.at_ with aiReasoning := some reasoning }

/-- "one AI call per TP level per setup": `row.ai_advised_tp_idx.map(|v| v as u8) >= Some(tp_idx)`. -/
def advised (row : SetupRow) (tpIdx : ℕ) : Bool :=
  row.aiAdvisedTpIdx.any fun v => Decidable.decide (v % 256 ≥ (tpIdx : ℤ))

/-- setup_watcher.rs:192. -/
def handleTpApproach (row : SetupRow) (state : WatcherSetupState) (price : ℚ) (tpIdx : ℕ)
    (health : HealthScore) (cfg : WatcherConfig) (llm : LlmJudge) (now : DateTime) (w : Watched) :
    Watched :=
  if advised row tpIdx then w
  else
    let input : SmartTargetInput := ⟨tpIdx, state.totalTps, health, price⟩
    let decision := decideOnApproach input cfg.smart cfg.approach llm
    match decision.action with
    | .trail =>
      let newSl := trailSlFromAnchor state.direction price cfg.approach.trailBufferPct
      if ¬ Tighter state.direction state.currentSl newSl then w.update (·.markAiAdvised tpIdx now)
      else
        let w := w.update (·.applyTrailEnable price newSl tpIdx now)
        onEvent w { makeContext state ⟨.slRatcheted, some tpIdx, newSl⟩ (some health) now with
          aiAction := some decision.action.code
          aiReasoning := some [.lit "[trail] ", .lit decision.reasoning]
          aiConfidence := some decision.confidence }
    | _ => w.update (·.markAiAdvised tpIdx now)

/-- setup_watcher.rs:381. -/
def handleTpHit (state : WatcherSetupState) (decision : LifecycleDecision) (health : HealthScore)
    (cfg : WatcherConfig) (llm : LlmJudge) (now : DateTime) (w : Watched) : Watched :=
  match decision.tpIndex with
  | none => w
  | some idx =>
    let input : SmartTargetInput := ⟨idx, state.totalTps, health, decision.price⟩
    let stDecision := decideSmartTarget input cfg.smart llm
    let finalDecision := { decision with kind := actionToKind stDecision.action }
    let w := { w with decided := w.decided ++ [(idx, stDecision.action)] }
    onEvent w { makeContext state finalDecision (some health) now with
      aiAction := some stDecision.action.code
      aiReasoning := some [.lit stDecision.reasoning]
      aiConfidence := some stDecision.confidence }

/-- The `match decision.kind` of setup_watcher.rs:521. A stop that fires in trailing mode, or that has
been moved from `entry_sl`, is a `TrailStop`. -/
def handleDecision (row : SetupRow) (state : WatcherSetupState) (health : HealthScore)
    (cfg : WatcherConfig) (llm : LlmJudge) (now : DateTime) (w : Watched)
    (decision : LifecycleDecision) : Watched :=
  match decision.kind with
  | .tpHit => handleTpHit state decision health cfg llm now w
  | _ =>
    let promoted := promoteTpHit state decision
    let promoted :=
      if promoted.kind = .slHit then
        let original := row.entrySl.getD state.currentSl
        let ratchetMoved := state.currentSl ≠ original
        if row.trailMode ∨ ratchetMoved then { promoted with kind := .trailStop } else promoted
      else promoted
    onEvent w (makeContext state promoted (some health) now)

/-! ## A tick -/

/-- The row as it was read, what the watcher makes of it, and the price. -/
structure Snapshot where
  row : SetupRow
  state : WatcherSetupState
  tick : PriceTick
deriving DecidableEq

/-- A row takes part in a tick if it is listed, complete and has a price. -/
def snapshot (row : SetupRow) (prices : String → String → Option PriceTick) : Option Snapshot :=
  if !row.listed then none
  else do
    let state ← buildState row
    let tick ← prices state.exchange state.symbol
    return ⟨row, state, tick⟩

def Snapshot.mid (s : Snapshot) : ℚ := s.tick.mid

def Snapshot.health (s : Snapshot) (cfg : WatcherConfig) : HealthScore :=
  computeHealth cfg.weights (priceProgressComponents s.state s.mid) cfg.bands

/-- "TP-approach AI advisory" (setup_watcher.rs:508-516). -/
def runTpApproach (s : Snapshot) (i : WatcherInput) (w : Watched) : Watched :=
  if i.cfg.approach.enabled && !s.row.trailMode then
    match approachingTp s.state s.mid i.cfg.approach.approachPct with
    | some tpIdx =>
      handleTpApproach s.row s.state s.mid tpIdx (s.health i.cfg) i.cfg i.llm i.now w
    | none => w
  else w

/-- The stop moves of a tick, before its transitions. -/
def moveStops (s : Snapshot) (i : WatcherInput) (w : Watched) : Watched :=
  let w := runTrailAdvance s.row s.state s.mid i.cfg.approach w
  let w := runPozKoruma s.row s.state s.mid i.cfg.pozKoruma (s.health i.cfg) i.now w
  runTpApproach s i w

/-- setup_watcher.rs:464. -/
def tickOnce (w : Watched) (i : WatcherInput) : Watched :=
  match snapshot w.row i.prices with
  | none => w
  | some s =>
    (detectTransitions s.state s.tick).foldl
      (handleDecision s.row s.state (s.health i.cfg) i.cfg i.llm i.now) (moveStops s i w)

/-- A long entered at 100 with its stop at 95, and the configuration the loaders fall back to. -/
def longFrom100Row : SetupRow where
  id := 1
  createdAt := 0
  exchange := "binance"
  symbol := "BTCUSDT"
  direction := "long"
  entryPrice := some 100
  entrySl := some 95
  koruma := some 95
  currentSl := none
  rawMeta := []
  rejectedReason := none
  entryTouchedAt := some 0
  tpHitsBitmap := 0
  ratchetReferencePrice := none
  ratchetCumulativePct := none
  ratchetLastUpdateAt := none
  trailMode := false
  trailAnchor := none
  aiAdvisedTpIdx := none
  aiAdvisedAt := none
  state := .active
  closedAt := none
  closeReason := none
  closePrice := none
  realizedPnlPct := none
  realizedR := none

def fallbackConfig : WatcherConfig := ⟨.fallback, .fallback, .fallback, .fallback, .fallback⟩

/-! ## What each part does -/

namespace Snapshot

variable (s : Snapshot) (i : WatcherInput)

def trailStop : ℚ := trailSlFromAnchor s.state.direction s.mid i.cfg.approach.trailBufferPct

def ratchet : RatchetInput := ratchetInput s.row s.state s.mid

/-- The stop that locks in the cumulative gain of the ratchet. -/
def lockedStop : ℚ :=
  shiftedSl s.state.direction s.state.entryPrice s.ratchet.locked i.cfg.pozKoruma.bufferPct

/-- The trail is on, the price is past its anchor and the trailing stop is tighter than the stop read. -/
def TrailAdvances : Prop :=
  s.row.trailMode = true ∧ (∃ a, s.row.trailAnchor = some a ∧ Tighter s.state.direction a s.mid)
    ∧ Tighter s.state.direction s.state.currentSl (s.trailStop i)

/-- Near level `n` the advice is to trail. -/
def AdvisesTrail (n : ℕ) : Prop :=
  (decideOnApproach ⟨n, s.state.totalTps, s.health i.cfg, s.mid⟩ i.cfg.smart i.cfg.approach
    i.llm).action = .trail

/-- The trail is off, a level is close and not advised on yet, the advice is to trail, and the trailing
stop is tighter than the stop read. -/
def TrailStarts : Prop :=
  s.row.trailMode = false ∧ i.cfg.approach.enabled = true
    ∧ (∃ n, approachingTp s.state s.mid i.cfg.approach.approachPct = some n ∧ advised s.row n = false
      ∧ s.AdvisesTrail i n)
    ∧ Tighter s.state.direction s.state.currentSl (s.trailStop i)

/-- The tightest of the locked, the original and the read stop. -/
def ratchetStop : ℚ :=
  tighterOf s.state.direction (tighterOf s.state.direction (s.lockedStop i) s.ratchet.originalSl)
    s.state.currentSl

/-- The ratchet fires on this tick. -/
def Ratchets : Prop := Fires s.ratchet i.cfg.pozKoruma i.now

end Snapshot

variable {s : Snapshot} {i : WatcherInput} {w : Watched}

theorem snapshot_eq_some {row : SetupRow} {prices : String → String → Option PriceTick} :
    snapshot row prices = some s ↔ s.row = row ∧ row.listed = true
      ∧ buildState row = some s.state ∧ prices s.state.exchange s.state.symbol = some s.tick := by
  obtain ⟨row', state, tick⟩ := s
  unfold snapshot
  cases hlisted : row.listed with
  | false => simp
  | true =>
    cases hstate : buildState row with
    | none => simp
    | some state' =>
      cases htick : prices state'.exchange state'.symbol with
      | none =>
        simp only [Bool.not_true, Bool.false_eq_true, if_false, Option.bind_eq_bind, Option.bind_some,
          htick, Option.bind_none, reduceCtorEq, false_iff]
        rintro ⟨-, -, hstate', htick'⟩
        obtain rfl := Option.some.inj hstate'
        rw [htick] at htick'
        cases htick'
      | some tick' =>
        simp only [Bool.not_true, Bool.false_eq_true, if_false, Option.bind_eq_bind, Option.bind_some,
          htick, Option.pure_def, Option.some.injEq, Snapshot.mk.injEq, true_and]
        constructor
        · rintro ⟨rfl, rfl, rfl⟩
          exact ⟨rfl, rfl, htick⟩
        · rintro ⟨rfl, rfl, htick'⟩
          rw [htick] at htick'
          exact ⟨rfl, rfl, Option.some.inj htick'⟩

/-- What the state takes over from the row. -/
theorem buildState_spec {row : SetupRow} {state : WatcherSetupState} (h : buildState row = some state) :
    parseDirection row.direction = some state.direction
      ∧ (∀ a, row.currentSl = some a → state.currentSl = a)
      ∧ state.tpHitsBitmap =
          (if row.tpHitsBitmap.msb then 0#32 else row.tpHitsBitmap).setWidth 8
      ∧ state.tpPrices.length = 3 := by
  unfold buildState at h
  cases hdir : parseDirection row.direction with
  | none => simp [hdir] at h
  | some d =>
    cases hentry : row.entryPrice with
    | none => simp [hdir, hentry] at h
    | some entry =>
      cases hsl : (row.currentSl <|> row.koruma <|> row.entrySl) with
      | none =>
        simp only [hdir, hentry, hsl, Option.bind_eq_bind, Option.bind_some, Option.bind_none] at h
        cases h
      | some sl =>
        simp only [hdir, hentry, hsl, Option.bind_eq_bind, Option.bind_some, Option.pure_def,
          Option.some.injEq] at h
        subst h
        refine ⟨rfl, ?_, rfl, rfl⟩
        intro a ha
        rw [ha] at hsl
        simpa using hsl.symm

/-- The advance stores the trailing stop when it is due, and else at most the stop it has read. -/
theorem runTrailAdvance_cases :
    (s.TrailAdvances i ∧ runTrailAdvance s.row s.state s.mid i.cfg.approach w =
        w.update (·.applyTrailAdvance s.mid (s.trailStop i)))
    ∨ ¬ s.TrailAdvances i ∧ (runTrailAdvance s.row s.state s.mid i.cfg.approach w = w
        ∨ runTrailAdvance s.row s.state s.mid i.cfg.approach w =
            w.update (·.applyTrailAdvance s.mid s.state.currentSl)) := by
  unfold Snapshot.TrailAdvances runTrailAdvance Snapshot.trailStop
  cases hmode : s.row.trailMode with
  | false => simp
  | true =>
    cases hanchor : s.row.trailAnchor with
    | none => simp
    | some a =>
      by_cases hpast : Tighter s.state.direction a s.mid
      · by_cases htight : Tighter s.state.direction s.state.currentSl
            (trailSlFromAnchor s.state.direction s.mid i.cfg.approach.trailBufferPct)
        · left
          simp [hpast, htight]
        · right
          simp [hpast, htight]
      · right
        simp [hpast]

/-- An `SlRatcheted` event has no side table. -/
theorem onEvent_slRatcheted {ctx : LifecycleContext} (h : ctx.kind = .slRatcheted) :
    onEvent w ctx = { w with events := w.events ++ [ctx] } := by
  simp [onEvent, sideTables, h, LifecycleEventKind.closeReason]

/-- The ratchet stores the tightest of the locked, the original and the read stop when it fires, and
else no stop. -/
theorem runPozKoruma_cases :
    (s.Ratchets i ∧ ∃ reference cumulative at_ ctx, ctx.kind = .slRatcheted
      ∧ runPozKoruma s.row s.state s.mid i.cfg.pozKoruma (s.health i.cfg) i.now w =
        { w.update (·.applyRatchetUpdate (some (s.ratchetStop i)) reference cumulative at_) with
          events := w.events ++ [ctx] })
    ∨ ¬ s.Ratchets i ∧ (runPozKoruma s.row s.state s.mid i.cfg.pozKoruma (s.health i.cfg) i.now w = w
      ∨ ∃ reference cumulative at_,
        runPozKoruma s.row s.state s.mid i.cfg.pozKoruma (s.health i.cfg) i.now w =
          w.update (·.applyRatchetUpdate none reference cumulative at_)) := by
  unfold Snapshot.Ratchets Snapshot.ratchet
  simp only [runPozKoruma]
  rcases evaluate_cases (ratchetInput s.row s.state s.mid) i.cfg.pozKoruma i.now with
    ⟨hfires, step, hstep, hsl⟩ | ⟨hnot, hno⟩
  · left
    have hstop : s.ratchetStop i = step.newSl := hsl.symm
    rw [hstop, hstep]
    exact ⟨hfires, _, _, _, _, by rfl, onEvent_slRatcheted (by rfl)⟩
  · right
    refine ⟨hnot, ?_⟩
    cases houtcome : evaluate (ratchetInput s.row s.state s.mid) i.cfg.pozKoruma i.now with
    | noChange => exact .inl rfl
    | ratcheted step => exact absurd houtcome (hno step)
    | referenceOnly reference gained at_ => exact .inr ⟨_, _, _, rfl⟩

theorem handleTpApproach_cases (n : ℕ) :
    ((advised s.row n = false ∧ s.AdvisesTrail i n
        ∧ Tighter s.state.direction s.state.currentSl (s.trailStop i))
      ∧ ∃ ctx, ctx.kind = .slRatcheted
        ∧ handleTpApproach s.row s.state s.mid n (s.health i.cfg) i.cfg i.llm i.now w =
          { w.update (·.applyTrailEnable s.mid (s.trailStop i) n i.now) with
            events := w.events ++ [ctx] })
    ∨ ¬ (advised s.row n = false ∧ s.AdvisesTrail i n
        ∧ Tighter s.state.direction s.state.currentSl (s.trailStop i))
      ∧ (handleTpApproach s.row s.state s.mid n (s.health i.cfg) i.cfg i.llm i.now w = w
        ∨ handleTpApproach s.row s.state s.mid n (s.health i.cfg) i.cfg i.llm i.now w =
          w.update (·.markAiAdvised n i.now)) := by
  unfold Snapshot.AdvisesTrail Snapshot.trailStop handleTpApproach
  cases hadvised : advised s.row n with
  | true => simp
  | false =>
    cases haction : (decideOnApproach ⟨n, s.state.totalTps, s.health i.cfg, s.mid⟩ i.cfg.smart
        i.cfg.approach i.llm).action with
    | trail =>
      by_cases htight : Tighter s.state.direction s.state.currentSl
          (trailSlFromAnchor s.state.direction s.mid i.cfg.approach.trailBufferPct)
      · left
        refine ⟨⟨rfl, rfl, htight⟩, ?_⟩
        simp only [haction, htight, not_true, if_false, Bool.false_eq_true]
        exact ⟨_, by rfl, onEvent_slRatcheted (by rfl)⟩
      · right
        simp [haction, htight]
    | ride => right; simp [haction]
    | scale => right; simp [haction]
    | exit => right; simp [haction]
    | tighten => right; simp [haction]

/-- The approach stores the trailing stop when the trail starts, and else no stop. -/
theorem runTpApproach_cases :
    (s.TrailStarts i ∧ ∃ n ctx, ctx.kind = .slRatcheted
      ∧ runTpApproach s i w =
        { w.update (·.applyTrailEnable s.mid (s.trailStop i) n i.now) with
          events := w.events ++ [ctx] })
    ∨ ¬ s.TrailStarts i ∧ (runTpApproach s i w = w
      ∨ ∃ n, runTpApproach s i w = w.update (·.markAiAdvised n i.now)) := by
  unfold Snapshot.TrailStarts runTpApproach
  by_cases hon : s.row.trailMode = false ∧ i.cfg.approach.enabled = true
  · obtain ⟨hmode, henabled⟩ := hon
    cases hnear : approachingTp s.state s.mid i.cfg.approach.approachPct with
    | none => simp [hmode, henabled]
    | some n =>
      simp only [hmode, henabled, Bool.not_false, Bool.and_self, if_true]
      rcases handleTpApproach_cases (s := s) (i := i) (w := w) n with ⟨hstarts, ctx, h⟩ | ⟨hnot, h⟩
      · exact .inl ⟨⟨trivial, trivial, ⟨n, rfl, hstarts.1, hstarts.2.1⟩, hstarts.2.2⟩, n, ctx, h⟩
      · refine .inr ⟨?_, h.imp_right fun h => ⟨n, h⟩⟩
        rintro ⟨-, -, ⟨m, hm, hadvised, htrail⟩, htight⟩
        obtain rfl := Option.some.inj hm
        exact hnot ⟨hadvised, htrail, htight⟩
  · right
    refine ⟨fun h => hon ⟨h.1, h.2.1⟩, .inl ?_⟩
    rw [if_neg]
    simpa [and_comm] using hon

end Qtss.Worker
