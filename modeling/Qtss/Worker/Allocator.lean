import Qtss.Lib.Runs
import Qtss.Domain
/-
# The setup allocator (`qtss-worker/src/allocator_v2_loop.rs`)

`run_tick` as the sequence of its database statements. Every statement is committed by itself, and other loops may
move a setup on between any two of them.

| here | there |
| --- | --- |
| `tfProfile`, `tfBarMinutes` | allocator_v2_loop.rs:1615, :1625 |
| `Setup`, `upgradedReason`   | the columns of `qtss_setups` that the dedup reads and writes; the reason of the UPDATE (:889) |
| `uqOpenSetupKey`            | the partial unique index of migration 0171, next to the primary key |
| `Pc.next`   | the head of the loop (:145), the test on `modes_to_arm` (:241), the ends of the inner loops |
| `Pc.select` | one SELECT of the per-mode dedup (:194-227) |
| `Pc.oppose` | the opposing gate (:339) |
| `State.insert`, `State.retire` | the INSERT (:815) and one UPDATE of the retirement loop (:882) |

The other gates (price, ATR, cooldown, AI approval, ...) are `skip` and `approve`, with any outcome.
-/

namespace Qtss.Worker.Allocator

/-- "T (Trade, short-horizon)" and "D (Daily, long-horizon)". -/
inductive Profile where
  | t | d
deriving DecidableEq, Repr

inductive Direction where
  | long | short
deriving DecidableEq, Repr

def tfProfile (tf : String) : Profile :=
  if tf ∈ ["5m", "15m", "30m"] then .t else .d

/-- "Unknown TFs fall back to 60 (neutral)." -/
def tfBarMinutes : String → ℕ
  | "1m" => 1
  | "3m" => 3
  | "5m" => 5
  | "15m" => 15
  | "30m" => 30
  | "1h" => 60
  | "2h" => 120
  | "4h" => 240
  | "6h" => 360
  | "8h" => 480
  | "12h" => 720
  | "1d" => 1440
  | "3d" => 4320
  | "1w" => 10080
  | _ => 60

/-! ## The setups -/

inductive SetupState where
  | flat | armed | active | closed | closedWin | closedLoss | closedManual | closedPartialWin | closedScratch | rejected
deriving DecidableEq, Repr

/-- What one setup at a time may hold. -/
structure Slot where
  exchange : String
  symbol : String
  profile : Profile
  direction : Direction
  mode : String
deriving DecidableEq, Repr

/-- A row of `qtss_setups`. `openedAs` is the state it was inserted with. -/
structure Setup where
  id : Uuid
  slot : Slot
  timeframe : String
  state : SetupState
  openedAs : SetupState
  rejectedReason : Option String
deriving DecidableEq, Repr

def Setup.barMinutes (r : Setup) : ℕ := tfBarMinutes r.timeframe

/-- `state IN ('armed','active')`. -/
def Setup.live (r : Setup) : Bool := r.state = .armed || r.state = .active

def upgradedReason : String := "upgraded_to_higher_tf_within_profile"

/-- `UPDATE .. WHERE id = $1 AND state IN ('armed','active')`. -/
def updateLive (id : Uuid) (f : Setup → Setup) (setups : List Setup) : List Setup :=
  setups.map fun r => if r.id = id ∧ r.live then f r else r

/-- Neither the index nor the primary key refuses the row. -/
def uqOpenSetupKey (setups : List Setup) (n : Setup) : Bool :=
  setups.all fun r => r.id ≠ n.id
    && !(n.live && r.live && r.slot.exchange = n.slot.exchange && r.slot.symbol = n.slot.symbol
      && r.timeframe = n.timeframe && r.slot.profile = n.slot.profile && r.slot.mode = n.slot.mode)

/-! ## The tick -/

structure Candidate where
  exchange : String
  symbol : String
  timeframe : String
  verdict : String
deriving DecidableEq, Repr

namespace Candidate

def direction (c : Candidate) : Direction := if c.verdict = "strong_bull" then .long else .short

def profile (c : Candidate) : Profile := tfProfile c.timeframe

def barMinutes (c : Candidate) : ℕ := tfBarMinutes c.timeframe

def slot (c : Candidate) (mode : String) : Slot := ⟨c.exchange, c.symbol, c.profile, c.direction, mode⟩

end Candidate

/-- The settings of a tick, with pairwise distinct modes. -/
structure Cfg where
  modes : List String
  maxArmedPerTick : ℤ
  mtfOpposingGateEnabled : Bool
  modesNodup : modes.Nodup

/-- What the last gates say of a candidate: the INSERT is for an armed setup or for a rejected one. -/
inductive Viability where
  | viable | belowCommissionFloor | crossedSl | slTooTight
deriving DecidableEq, Repr

namespace Viability

def rejectedReason : Viability → Option String
  | .viable => none
  | .belowCommissionFloor => some "gross_tp_below_commission_floor"
  | .crossedSl => some "live_price_crossed_sl_at_open"
  | .slTooTight => some "sl_too_tight"

def setupState : Viability → SetupState
  | .viable => .armed
  | _ => .rejected

end Viability

structure Tick where
  cfg : Cfg
  rest : List Candidate
  armed : ℕ

/-- The candidate at hand, with the locals `modes_to_arm` (those not yet inserted) and `superseded`. -/
structure Work where
  tick : Tick
  cand : Candidate
  modesToArm : List String
  superseded : List Uuid

/-- Where the loop stands. -/
inductive Pc where
  | sleeping
  | loopHead (t : Tick)
  | dedup (w : Work) (modes : List String)
  | gates (w : Work)
  | approval (w : Work)
  | arming (w : Work) (v : Viability)
  | retiring (w : Work) (ids : List Uuid)

structure State where
  setups : List Setup
  pc : Pc

def State.start : State := ⟨[], .sleeping⟩

inductive Op where
  | tick (cfg : Cfg) (rows : List Candidate)
  | next
  | select
  /-- A gate says no. -/
  | skip
  | oppose
  | approve (v : Viability)
  /-- With the id that the database draws, or `none` where the statement fails. -/
  | insert (id : Option Uuid)
  | retire
  /-- Another loop moves an armed or active setup to another state. -/
  | moved (id : Uuid) (state : SetupState)

def Work.setup (w : Work) (v : Viability) (mode : String) (id : Uuid) : Setup :=
  ⟨id, w.cand.slot mode, w.cand.timeframe, v.setupState, v.setupState, v.rejectedReason⟩

namespace Pc

def next : Pc → Pc
  | .loopHead t =>
    match t.rest with
    | [] => .sleeping
    | c :: rest =>
      if 0 < t.cfg.maxArmedPerTick ∧ t.cfg.maxArmedPerTick ≤ t.armed then .sleeping
      else .dedup ⟨{ t with rest := rest }, c, [], []⟩ t.cfg.modes
  | .dedup w [] => if w.modesToArm = [] then .loopHead w.tick else .gates w
  | .arming w v => if w.modesToArm = [] then .loopHead w.tick else .arming w v
  | .retiring w [] => .arming { w with tick := { w.tick with armed := w.tick.armed + 1 } } .viable
  | pc => pc

/-- A holder of an equal or higher timeframe keeps its slot, a lower one is to be retired. -/
def select (setups : List Setup) : Pc → Pc
  | .dedup w (mode :: modes) =>
    let existing := setups.filter fun r => r.live && r.slot = w.cand.slot mode
    let keepExisting := existing.any fun r => w.cand.barMinutes ≤ r.barMinutes
    let lower := (existing.filter fun r => r.barMinutes < w.cand.barMinutes).map (·.id)
    .dedup { w with
      modesToArm := if keepExisting then w.modesToArm else w.modesToArm ++ [mode]
      superseded := w.superseded ++ lower } modes
  | pc => pc

def skip : Pc → Pc
  | .gates w => .loopHead w.tick
  | .approval w => .loopHead w.tick
  | pc => pc

def oppose (setups : List Setup) : Pc → Pc
  | .gates w =>
    if w.tick.cfg.mtfOpposingGateEnabled && setups.any (fun r => r.live && r.slot.exchange = w.cand.exchange
        && r.slot.symbol = w.cand.symbol && r.slot.profile = w.cand.profile && r.slot.direction ≠ w.cand.direction) then
      .loopHead w.tick
    else .approval w
  | pc => pc

def approve (v : Viability) : Pc → Pc
  | .approval w => .arming w v
  | pc => pc

end Pc

namespace State

/-- A failed INSERT leaves the tick (`?`); a viable one goes on to the retirements. -/
def insert (s : State) (id : Option Uuid) : State :=
  match s.pc with
  | .arming w v =>
    match w.modesToArm with
    | [] => s
    | mode :: modes =>
      match id.map (w.setup v mode) with
      | none => { s with pc := .sleeping }
      | some row =>
        if uqOpenSetupKey s.setups row then
          let w' := { w with modesToArm := modes }
          ⟨s.setups ++ [row], if v = .viable then .retiring w' w.superseded else .arming w' v⟩
        else { s with pc := .sleeping }
  | _ => s

def retire (s : State) : State :=
  match s.pc with
  | .retiring w (id :: ids) =>
    ⟨updateLive id (fun r => { r with state := .rejected, rejectedReason := some upgradedReason }) s.setups,
      .retiring w ids⟩
  | _ => s

def step (s : State) : Op → State
  | .tick cfg rows =>
    match s.pc with
    | .sleeping => { s with pc := .loopHead ⟨cfg, rows, 0⟩ }
    | _ => s
  | .next => { s with pc := s.pc.next }
  | .select => { s with pc := s.pc.select s.setups }
  | .skip => { s with pc := s.pc.skip }
  | .oppose => { s with pc := s.pc.oppose s.setups }
  | .approve v => { s with pc := s.pc.approve v }
  | .insert id => s.insert id
  | .retire => s.retire
  | .moved id state => { s with setups := updateLive id (fun r => { r with state := state }) s.setups }

/-! ## What a step can do -/

/-- How the loop goes on without writing to a setup. -/
inductive Goes (setups : List Setup) : Pc → Op → Pc → Prop where
  | stays (pc : Pc) (op : Op) : Goes setups pc op pc
  | wakes (cfg : Cfg) (rows : List Candidate) : Goes setups .sleeping (.tick cfg rows) (.loopHead ⟨cfg, rows, 0⟩)
  | ends (t : Tick) : Goes setups (.loopHead t) .next .sleeping
  | takes (t : Tick) (c : Candidate) (rest : List Candidate) :
      Goes setups (.loopHead t) .next (.dedup ⟨{ t with rest := rest }, c, [], []⟩ t.cfg.modes)
  | selects (w : Work) (mode : String) (modes : List String) :
      Goes setups (.dedup w (mode :: modes)) .select (Pc.select setups (.dedup w (mode :: modes)))
  | kept (w : Work) : Goes setups (.dedup w []) .next (.loopHead w.tick)
  | collected (w : Work) : Goes setups (.dedup w []) .next (.gates w)
  | skipped (w : Work) : Goes setups (.gates w) .skip (.loopHead w.tick)
  | skippedLate (w : Work) : Goes setups (.approval w) .skip (.loopHead w.tick)
  | opposed (w : Work) : Goes setups (.gates w) .oppose (.loopHead w.tick)
  | unopposed (w : Work) : Pc.oppose setups (.gates w) = .approval w → Goes setups (.gates w) .oppose (.approval w)
  | approved (w : Work) (v : Viability) : Goes setups (.approval w) (.approve v) (.arming w v)
  | armedAll (w : Work) (v : Viability) : w.modesToArm = [] → Goes setups (.arming w v) .next (.loopHead w.tick)
  | retiredAll (w : Work) : Goes setups (.retiring w []) .next
      (.arming { w with tick := { w.tick with armed := w.tick.armed + 1 } } .viable)

theorem goes_next (setups : List Setup) (pc : Pc) : Goes setups pc .next pc.next := by
  cases pc with
  | loopHead t =>
    rw [Pc.next]
    split
    · exact .ends t
    · split
      · exact .ends t
      · exact .takes t _ _
  | dedup w modes =>
    cases modes with
    | cons mode modes => exact .stays _ _
    | nil =>
      rw [Pc.next]
      split
      · exact .kept w
      · exact .collected w
  | arming w v =>
    rw [Pc.next]
    split
    next hmodes => exact .armedAll w v hmodes
    next => exact .stays _ _
  | retiring w ids =>
    cases ids with
    | cons id ids => exact .stays _ _
    | nil => exact .retiredAll w
  | _ => exact .stays _ _

theorem goes_select (setups : List Setup) (pc : Pc) : Goes setups pc .select (pc.select setups) := by
  cases pc with
  | dedup w modes =>
    cases modes with
    | nil => exact .stays _ _
    | cons mode modes => exact .selects w mode modes
  | _ => exact .stays _ _

theorem goes_skip (setups : List Setup) (pc : Pc) : Goes setups pc .skip pc.skip := by
  cases pc with
  | gates w => exact .skipped w
  | approval w => exact .skippedLate w
  | _ => exact .stays _ _

theorem goes_oppose (setups : List Setup) (pc : Pc) : Goes setups pc .oppose (pc.oppose setups) := by
  cases pc with
  | gates w =>
    rw [Pc.oppose]
    split
    next => exact .opposed w
    next hnone => exact .unopposed w (if_neg hnone)
  | _ => exact .stays _ _

theorem goes_approve (setups : List Setup) (pc : Pc) (v : Viability) :
    Goes setups pc (.approve v) (pc.approve v) := by
  cases pc with
  | approval w => exact .approved w v
  | _ => exact .stays _ _

theorem goes_tick (s : State) (cfg : Cfg) (rows : List Candidate) :
    ∃ pc, Goes s.setups s.pc (.tick cfg rows) pc ∧ s.step (.tick cfg rows) = ⟨s.setups, pc⟩ := by
  obtain ⟨setups, pc⟩ := s
  cases pc with
  | sleeping => exact ⟨_, .wakes cfg rows, rfl⟩
  | _ => exact ⟨_, .stays _ _, rfl⟩

/-- A step goes on, or is one of the three that write. -/
theorem step_cases (s : State) (op : Op) :
    (∃ pc, Goes s.setups s.pc op pc ∧ s.step op = ⟨s.setups, pc⟩) ∨
      (∃ id, op = .insert id) ∨ op = .retire ∨ ∃ id state, op = .moved id state := by
  cases op with
  | tick cfg rows => exact .inl (goes_tick s cfg rows)
  | next => exact .inl ⟨_, goes_next _ _, rfl⟩
  | select => exact .inl ⟨_, goes_select _ _, rfl⟩
  | skip => exact .inl ⟨_, goes_skip _ _, rfl⟩
  | oppose => exact .inl ⟨_, goes_oppose _ _, rfl⟩
  | approve v => exact .inl ⟨_, goes_approve _ _ v, rfl⟩
  | insert id => exact .inr (.inl ⟨id, rfl⟩)
  | retire => exact .inr (.inr (.inl rfl))
  | moved id state => exact .inr (.inr (.inr ⟨id, state, rfl⟩))

/-- What an INSERT can do. -/
inductive Inserts (s : State) : Option Uuid → State → Prop where
  | idle (id : Option Uuid) : Inserts s id s
  | fails (id : Option Uuid) {w : Work} {v : Viability} : s.pc = .arming w v → Inserts s id ⟨s.setups, .sleeping⟩
  | armed {id : Uuid} {w : Work} {mode : String} {modes : List String} : s.pc = .arming w .viable →
      w.modesToArm = mode :: modes → id ∉ s.setups.map (·.id) →
      Inserts s (some id)
        ⟨s.setups ++ [w.setup .viable mode id], .retiring { w with modesToArm := modes } w.superseded⟩
  | rejected {id : Uuid} {w : Work} {v : Viability} {mode : String} {modes : List String} : s.pc = .arming w v →
      w.modesToArm = mode :: modes → v ≠ .viable → id ∉ s.setups.map (·.id) →
      Inserts s (some id) ⟨s.setups ++ [w.setup v mode id], .arming { w with modesToArm := modes } v⟩

theorem insert_inserts (s : State) (id : Option Uuid) : Inserts s id (s.insert id) := by
  obtain ⟨setups, pc⟩ := s
  cases pc with
  | arming w v =>
    simp only [State.insert]
    split
    next => exact .idle id
    next mode modes hmodes =>
      cases id with
      | none => exact .fails none rfl
      | some id =>
        simp only [Option.map_some]
        split
        next hkey =>
          have hfresh : id ∉ setups.map (·.id) := by
            intro hid
            obtain ⟨r, hr, rfl⟩ := List.mem_map.1 hid
            simpa [uqOpenSetupKey, Work.setup] using List.all_eq_true.1 hkey r hr
          by_cases hv : v = .viable
          · subst hv
            exact .armed rfl hmodes hfresh
          · rw [if_neg hv]
            exact .rejected rfl hmodes hv hfresh
        · exact .fails (some id) rfl
  | _ => exact .idle id

end State

end Qtss.Worker.Allocator
