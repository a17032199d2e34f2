import Qtss.Notify.Health
/-
# Smart Target (`qtss-notify/src/smart_target.rs`)

| here | there |
| --- | --- |
| `SmartTargetAction`  | smart_target.rs:34; `code` is :51 |
| `SmartTargetInput`, `SmartTargetDecision` | :75, :84 |
| `SmartTargetCfg`, `ApproachCfg` | :91, :102 |
| `ruleEvaluate`       | :129 |
| `LlmJudge`           | :179, what an external judge answers to an input |
| `decideSmartTarget`  | `decide` (:206), which the watcher imports as `decide_smart_target` |
| `ruleEvaluateApproach`, `decideOnApproach` | :233, :260 |

`SmartTargetInput.pnl_pct` is read by the external judge only and left out; so is the evaluator kind
the two dispatchers return for the log.
-/

namespace Qtss.Notify

inductive SmartTargetAction where
  | ride | scale | exit | tighten | trail
deriving DecidableEq, Repr

def SmartTargetAction.code : SmartTargetAction → String
  | .ride => "ride"
  | .scale => "scale"
  | .exit => "exit"
  | .tighten => "tighten"
  | .trail => "trail"

structure SmartTargetInput where
  tpIndex : ℕ
  totalTps : ℕ
  health : HealthScore
  price : ℚ
deriving DecidableEq

structure SmartTargetDecision where
  action : SmartTargetAction
  confidence : ℚ
  reasoning : String
deriving DecidableEq

structure SmartTargetCfg where
  ruleBelow : ℚ
  llmBelow : ℚ
deriving DecidableEq

def SmartTargetCfg.fallback : SmartTargetCfg := ⟨50, 30⟩

structure ApproachCfg where
  enabled : Bool
  approachPct : ℚ
  trailBufferPct : ℚ
  trailOnLastTpOnly : Bool
deriving DecidableEq

def ApproachCfg.fallback : ApproachCfg := ⟨true, 3 / 1000, 8 / 1000, true⟩

def SmartTargetInput.isLastTp (i : SmartTargetInput) : Bool := decide (i.tpIndex ≥ i.totalTps)

/-- smart_target.rs:129. -/
def ruleEvaluate (input : SmartTargetInput) : SmartTargetDecision :=
  let (action, reason) : SmartTargetAction × String :=
    match input.health.band, input.isLastTp with
    | .healthy, _ => (.ride, "Pozisyon sağlıklı, hedef doğrultusunda seyrediyor.")
    | .warn, false => (.scale, "Sağlık düşüyor — kısmi kâr alıp kalanı stopsuz bırakma.")
    | .warn, true => (.exit, "Son hedefe ulaştık ve sağlık zayıf — tüm kâr realize.")
    | .danger, false => (.tighten, "Piyasa kötüleşiyor — SL'i sıkılaştır, kârı koru.")
    | .danger, true => (.exit, "Son hedef + tehlike bandı: pozisyonu kapat.")
    | .critical, _ => (.exit, "Kritik sağlık bandı — pozisyonu derhal kapat.")
  let confidence := match input.health.band with
    | .healthy => 9 / 10
    | .warn => 4 / 5
    | .danger => 17 / 20
    | .critical => 19 / 20
  ⟨action, confidence, reason⟩

/-- The answer of `LlmJudge::evaluate`. -/
abbrev LlmJudge := SmartTargetInput → SmartTargetDecision

/-- `DefaultLlmJudge` (smart_target.rs:186). -/
def defaultLlmJudge : LlmJudge := fun input =>
  let d := ruleEvaluate input
  { d with reasoning := "[LLM stub → kural] " ++ d.reasoning }

/-- smart_target.rs:206. -/
def decideSmartTarget (input : SmartTargetInput) (cfg : SmartTargetCfg) (llm : LlmJudge) :
    SmartTargetDecision :=
  if input.health.total < cfg.llmBelow then llm input
  else if input.health.total < cfg.ruleBelow then ruleEvaluate input
  else ⟨.ride, 3 / 5, "Sağlık yüksek — hedefe devam."⟩

/-- smart_target.rs:233. -/
def ruleEvaluateApproach (input : SmartTargetInput) (cfg : ApproachCfg) : SmartTargetDecision :=
  let trailEligible := match input.health.band with
    | .healthy => !cfg.trailOnLastTpOnly || input.isLastTp
    | _ => false
  if trailEligible then
    ⟨.trail, 3 / 4,
      if input.isLastTp then "Son hedef yakın, sağlık güçlü — trailing stop'a geç."
      else "Hedefe yaklaşıldı, trend güçlü — trailing stop aktif."⟩
  else ruleEvaluate input

/-- smart_target.rs:260. -/
def decideOnApproach (input : SmartTargetInput) (cfg : SmartTargetCfg) (acfg : ApproachCfg)
    (llm : LlmJudge) : SmartTargetDecision :=
  if input.health.total < cfg.llmBelow then
    let d := llm input
    if d.action = .trail then d else { d with reasoning := d.reasoning ++ " (approach)" }
  else ruleEvaluateApproach input acfg

/-- At the first two of three levels the rule table moves the stop in the danger band only, and at the
last one never. -/
theorem ruleEvaluate_tighten_iff {input : SmartTargetInput} :
    (ruleEvaluate input).action = .tighten ↔
      input.health.band = .danger ∧ input.tpIndex < input.totalTps := by
  unfold ruleEvaluate
  by_cases hlast : input.tpIndex < input.totalTps
  · have : input.isLastTp = false := by simp [SmartTargetInput.isLastTp, hlast]
    cases hband : input.health.band <;> simp [this, hlast]
  · have : input.isLastTp = true := by simp [SmartTargetInput.isLastTp, not_lt.1 hlast]
    cases hband : input.health.band <;> simp [this, hlast]

end Qtss.Notify
