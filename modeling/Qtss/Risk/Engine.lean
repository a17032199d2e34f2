import Qtss.Risk.Sizing
/-
# The risk engine (`qtss-risk/src/engine.rs`)

| here | there |
| --- | --- |
| `RiskEngine`         | `RiskEngine` (engine.rs:17); `valid` is what `new` (:24) establishes and nothing can undo |
| `RiskEngine.approve` | `RiskEngine::approve` (:46); the fresh id and `Utc::now()` are arguments |
| `fullEngine`         | the engine with every built-in check (tests.rs:56) |

With the default sizers and a positive entry price the outcome is a closed formula: an intent passes
iff every check and the stop distance let it, and the smaller of the notional its hint asks for and
`equity * max_leverage` is positive; that smaller notional is what it gets (`approve_defaults_ok`,
`approve_of_pos`). What the caps of the configuration are worth follows by comparing it with them.
-/

namespace Qtss.Risk
open Keyed

structure RiskEngine where
  config : RiskConfig
  valid : config.validate = .ok ()
  checks : List RiskCheck
  sizers : SizerRegistry

namespace RiskEngine

/-- engine.rs:24. -/
def new (config : RiskConfig) (sizers : SizerRegistry) : Except RiskError RiskEngine :=
  match h : config.validate with
  | .error e => .error e
  | .ok () => .ok ⟨config, h, [], sizers⟩

def registerCheck (e : RiskEngine) (c : RiskCheck) : RiskEngine :=
  { e with checks := e.checks ++ [c] }

/-- The leverage trim (engine.rs:74-85): the final quantity and its adjustments. -/
def trim (sized : SizerOutput) (entry maxNotional : ℚ) : SizerOutput :=
  if sized.quantity * entry > maxNotional ∧ entry > 0 then
    ⟨maxNotional / entry,
      sized.adjustments ++ [[.lit "quantity trimmed to honour max_leverage"]]⟩
  else sized

/-- engine.rs:46: walk the checks, size, re-apply the leverage cap, emit. -/
def approve (e : RiskEngine) (id : Uuid) (now : DateTime) (intent : TradeIntent)
    (state : AccountState) : Except RiskRejection ApprovedIntent :=
  match runChecks intent state e.config e.checks with
  | .error r => .error r
  | .ok passed =>
    match e.sizers.lookup (hintTag intent.sizing) with
    | none => .error (.invalidIntent [.lit "no sizer registered for ", .lit (hintTag intent.sizing)])
    | some sizer =>
      match sizer intent state e.config with
      | .error r => .error r
      | .ok sized =>
        match intent.entryPrice with
        | none => .error entryPriceRequired
        | some entry =>
          let final := trim sized entry (state.equity * e.config.maxLeverage)
          if final.quantity ≤ 0 then
            .error (.invalidIntent [.lit "sized quantity is zero or negative"])
          else .ok
            { id := id
              approvedAt := now
              intent := intent
              quantity := final.quantity
              notional := final.quantity * entry
              checksPassed := passed
              adjustments := final.adjustments }

end RiskEngine

/-- tests.rs:56. -/
def fullEngine (config : RiskConfig) (valid : config.validate = .ok ()) : RiskEngine :=
  ⟨config, valid, defaultChecks, .withDefaults⟩

theorem new_register_full (config : RiskConfig) (valid : config.validate = .ok ()) :
    (RiskEngine.new config .withDefaults).map (defaultChecks.foldl RiskEngine.registerCheck) =
      .ok (fullEngine config valid) := by
  unfold RiskEngine.new
  split
  · rename_i e h; rw [valid] at h; cases h
  · rfl

/-! ## The outcome of `approve` -/

section approve
variable {e : RiskEngine} {id : Uuid} {now : DateTime} {intent : TradeIntent}
  {state : AccountState} {entry : ℚ} {a : ApprovedIntent}

theorem RiskEngine.maxLeverage_pos (e : RiskEngine) : 0 < e.config.maxLeverage :=
  ((validate_ok_iff _).1 e.valid).2.2.2.2.1

theorem RiskEngine.maxRisk_pos (e : RiskEngine) : 0 < e.config.maxRiskPerTrade :=
  ((validate_ok_iff _).1 e.valid).2.2.2.2.2

/-- The trimmed notional is the smaller of the sized one and the cap. -/
theorem trim_notional {sized : SizerOutput} {maxNotional : ℚ} (h0 : 0 < entry) :
    (RiskEngine.trim sized entry maxNotional).quantity * entry =
      min (sized.quantity * entry) maxNotional := by
  unfold RiskEngine.trim
  by_cases h : sized.quantity * entry > maxNotional
  · simp [h, h0, min_eq_right h.le, h0.ne']
  · simp [h, min_eq_left (not_lt.1 h)]

/-- **`approve` accepting**: every check passes, the registered sizer returns, the entry price is
there and the trimmed quantity is positive. -/
theorem approve_ok_iff :
    e.approve id now intent state = .ok a ↔
      (∀ c ∈ e.checks, c.evaluate intent state e.config = .ok ()) ∧
      ∃ sizer sized entry, e.sizers.lookup (hintTag intent.sizing) = some sizer ∧
        sizer intent state e.config = .ok sized ∧ intent.entryPrice = some entry ∧
        let final := RiskEngine.trim sized entry (state.equity * e.config.maxLeverage)
        0 < final.quantity ∧ a = ⟨id, now, intent, final.quantity, final.quantity * entry,
          e.checks.map (·.name), final.adjustments⟩ := by
  constructor
  · intro hok
    unfold RiskEngine.approve at hok
    split at hok
    · cases hok
    · rename_i passed hpassed
      obtain ⟨hchecks, rfl⟩ := runChecks_ok_iff.1 hpassed
      split at hok
      · cases hok
      · rename_i sizer hsizer
        split at hok
        · cases hok
        · rename_i sized hsized
          split at hok
          · cases hok
          · rename_i entry hentry
            simp only at hok
            split at hok
            · cases hok
            · rename_i hpos
              exact ⟨hchecks, sizer, sized, entry, hsizer, hsized, hentry, not_le.1 hpos,
                (Except.ok.inj hok).symm⟩
  · rintro ⟨hchecks, sizer, sized, entry, hsizer, hsized, hentry, hpos, rfl⟩
    have hpassed := runChecks_ok_iff.2 ⟨hchecks, rfl⟩
    simp only [RiskEngine.approve, hpassed, hsizer, hsized, hentry]
    rw [if_neg hpos.not_ge]

end approve

/-! ## With the default sizers -/

section defaults
variable {e : RiskEngine} {id : Uuid} {now : DateTime} {intent : TradeIntent}
  {state : AccountState} {entry : ℚ} {a : ApprovedIntent}

/-- The notional an intent gets if nothing rejects it. -/
def grantedNotional (e : RiskEngine) (intent : TradeIntent) (entry equity : ℚ) : ℚ :=
  min (requestedNotional e.config intent.sizing entry intent.stopLoss equity)
    (equity * e.config.maxLeverage)

/-- The default sizer of the hint accepts the intent (whatever the account). -/
def SizerAccepts (e : RiskEngine) (intent : TradeIntent) : Prop :=
  ∀ state, ∃ out, defaultSizer intent.sizing intent state e.config = .ok out

theorem approve_defaults_ok (hsizers : e.sizers = .withDefaults)
    (he : intent.entryPrice = some entry) (h0 : 0 < entry)
    (hok : e.approve id now intent state = .ok a) :
    (∀ c ∈ e.checks, c.evaluate intent state e.config = .ok ()) ∧ SizerAccepts e intent ∧
      0 < a.quantity ∧ a.quantity * entry = grantedNotional e intent entry state.equity := by
  obtain ⟨hchecks, sizer, sized, entry', hsizer, hsized, he', hpos, rfl⟩ := approve_ok_iff.1 hok
  obtain rfl : entry = entry' := Option.some.inj (he.symm.trans he')
  rw [hsizers, withDefaults_lookup] at hsizer
  obtain rfl := Option.some.inj hsizer
  rcases defaultSizer_eq e.maxRisk_pos.le he h0 with hrej | ⟨adjustments, hacc⟩
  · rw [hrej] at hsized
    cases hsized
  · rw [hacc] at hsized
    obtain rfl := Except.ok.inj hsized
    refine ⟨hchecks, fun s => ⟨_, hacc s⟩, hpos, ?_⟩
    simp only [trim_notional h0, div_mul_cancel₀ _ h0.ne', grantedNotional]

/-- **`approve` rejecting**: only a check, the stop distance or a notional of zero or less does. -/
theorem approve_of_pos (hsizers : e.sizers = .withDefaults) (he : intent.entryPrice = some entry)
    (h0 : 0 < entry) (hchecks : ∀ c ∈ e.checks, c.evaluate intent state e.config = .ok ())
    (hacc : SizerAccepts e intent) (hpos : 0 < grantedNotional e intent entry state.equity) :
    ∃ a, e.approve id now intent state = .ok a := by
  rcases defaultSizer_eq e.maxRisk_pos.le he h0 with hrej | ⟨adjustments, hsize⟩
  · obtain ⟨out, hout⟩ := hacc state
    rw [hrej] at hout
    cases hout
  · refine ⟨_, approve_ok_iff.2 ⟨hchecks, _, _, entry, ?_, hsize state, he, ?_, rfl⟩⟩
    · rw [hsizers, withDefaults_lookup]
    · refine pos_of_mul_pos_left ?_ h0.le
      rw [trim_notional h0, div_mul_cancel₀ _ h0.ne']
      exact hpos

end defaults

end Qtss.Risk
