import Mathlib.Algebra.Order.Field.Rat
import Mathlib.Algebra.BigOperators.Ring.List
import Mathlib.Algebra.Order.Field.Basic
import Mathlib.Algebra.Order.BigOperators.Group.List
import Mathlib.Tactic.Linarith
import Qtss.Domain
/-
# From an approved intent to a bracket of orders (`qtss-execution-v2/src/builder.rs`)

| here | there |
| --- | --- |
| `ExecutionError`   | `error.rs:4` |
| `OrderBracket`     | `OrderBracket` (builder.rs:24); `legs` is `iter` (:31) |
| `splitIntent`      | `split_intent` (:38) |
| `buildTakeProfits` | `build_take_profits` (:93) |
| `weightOf`         | the weight as :103 converts it |

`Uuid::new_v4()` is a supply `newV4`: the n-th id drawn while splitting one intent. The targets always
share the whole quantity; a target without weight beside one that has some gets an order over
nothing, which `split_intent` would refuse as an intent.
-/

namespace Qtss.Execution

inductive ExecutionError where
  | invalidIntent (detail : String)
  | adapter (detail : String)
  | noAdapter (mode : ExecutionMode)
  | orderNotFound (id : Uuid)
deriving DecidableEq, Repr

structure OrderBracket where
  entry : OrderRequest
  stop : OrderRequest
  takeProfits : List OrderRequest
deriving DecidableEq

/-- The stop and the take profits, in placing order. -/
def OrderBracket.exits (b : OrderBracket) : List OrderRequest := b.stop :: b.takeProfits

def OrderBracket.legs (b : OrderBracket) : List OrderRequest := b.entry :: b.exits

def opposite : Side → Side
  | .long => .short
  | .short => .long

section build
variable (newV4 : Nat → Uuid) (intent : TradeIntent) (qty : ℚ) (intentId : Option Uuid)

/-- builder.rs:56. -/
def buildEntry : OrderRequest where
  clientOrderId := newV4 0
  instrument := intent.instrument
  side := intent.side
  orderType := if intent.entryPrice.isSome then .limit else .market
  quantity := qty
  price := intent.entryPrice
  stopPrice := none
  timeInForce := intent.timeInForce
  reduceOnly := false
  postOnly := false
  intentId := intentId

/-- builder.rs:77. -/
def buildStop : OrderRequest where
  clientOrderId := newV4 1
  instrument := intent.instrument
  side := opposite intent.side
  orderType := .stop
  quantity := qty
  price := none
  stopPrice := some intent.stopLoss
  timeInForce := .gtc
  reduceOnly := true
  postOnly := false
  intentId := intentId

/-- builder.rs:132, for the `i`-th target. -/
def buildTp (i : Nat) (target : Target) (qty : ℚ) : OrderRequest where
  clientOrderId := newV4 (i + 2)
  instrument := intent.instrument
  side := opposite intent.side
  orderType := .limit
  quantity := qty
  price := some target.price
  stopPrice := none
  timeInForce := .gtc
  reduceOnly := true
  postOnly := false
  intentId := intentId

/-- The weights as fractions of the parent (:101-114): NaN and negative ones count as zero, and
without any weight left the split is equal. -/
def normalised : List ℚ :=
  let weights := intent.takeProfits.map fun t => max (t.weight.getD 0) 0
  let total := weights.sum
  if total > 0 then weights.map (· / total)
  else weights.map fun _ => 1 / (intent.takeProfits.length : ℚ)

/-- The loop of `build_take_profits` (:115-127) from the `i`-th target on. "Last target absorbs the
dust to ensure children sum to parent." -/
def allocate (i : Nat) (allocated : ℚ) : List (Target × ℚ) → List OrderRequest
  | [] => []
  | (target, frac) :: rest =>
    if i + 1 = intent.takeProfits.length then
      buildTp newV4 intent intentId i target (qty - allocated) :: allocate (i + 1) allocated rest
    else
      let q := qty * frac
      buildTp newV4 intent intentId i target q :: allocate (i + 1) (allocated + q) rest

/-- builder.rs:93. -/
def buildTakeProfits : List OrderRequest :=
  allocate newV4 intent qty intentId 0 0 (intent.takeProfits.zip (normalised intent))

end build

/-- builder.rs:38. -/
def splitIntent (newV4 : Nat → Uuid) (approved : ApprovedIntent) :
    Except ExecutionError OrderBracket :=
  if approved.quantity ≤ 0 then .error (.invalidIntent "quantity must be > 0")
  else .ok
    { entry := buildEntry newV4 approved.intent approved.quantity (some approved.id)
      stop := buildStop newV4 approved.intent approved.quantity (some approved.id)
      takeProfits := buildTakeProfits newV4 approved.intent approved.quantity (some approved.id) }

/-! ## What the legs are -/

section legs
variable {newV4 : Nat → Uuid} {intent : TradeIntent} {qty : ℚ} {intentId : Option Uuid}
  {approved : ApprovedIntent} {b : OrderBracket}

theorem mem_allocate {r : OrderRequest} {ts : List (Target × ℚ)} {i : Nat} {allocated : ℚ}
    (h : r ∈ allocate newV4 intent qty intentId i allocated ts) :
    r.reduceOnly = true ∧ r.side = opposite intent.side := by
  induction ts generalizing i allocated with
  | nil => cases h
  | cons t ts ih =>
    obtain ⟨target, frac⟩ := t
    unfold allocate at h
    split at h
    · rcases List.mem_cons.1 h with rfl | hrest
      · exact ⟨rfl, rfl⟩
      · exact ih hrest
    · rcases List.mem_cons.1 h with rfl | hrest
      · exact ⟨rfl, rfl⟩
      · exact ih hrest

theorem splitIntent_inv (h : splitIntent newV4 approved = .ok b) :
    b.entry = buildEntry newV4 approved.intent approved.quantity (some approved.id) ∧
      b.stop = buildStop newV4 approved.intent approved.quantity (some approved.id) ∧
      b.takeProfits = buildTakeProfits newV4 approved.intent approved.quantity (some approved.id) := by
  unfold splitIntent at h
  split at h
  · cases h
  · obtain rfl := Except.ok.inj h
    exact ⟨rfl, rfl, rfl⟩

/-- The exits only reduce, and on the other side. -/
theorem splitIntent_exits (h : splitIntent newV4 approved = .ok b) :
    ∀ r ∈ b.exits, r.reduceOnly = true ∧ r.side = opposite approved.intent.side := by
  obtain ⟨-, hstop, htps⟩ := splitIntent_inv h
  intro r hr
  rcases List.mem_cons.1 hr with rfl | htp
  · rw [hstop]
    exact ⟨rfl, rfl⟩
  · rw [htps] at htp
    exact mem_allocate htp

/-- **The bracket of an accepted intent**: an entry for the intent's side and instrument, and exits
that only reduce. -/
theorem splitIntent_ok (h : splitIntent newV4 approved = .ok b) :
    b.entry.reduceOnly = false ∧ b.entry.side = approved.intent.side ∧
      b.entry.instrument = approved.intent.instrument ∧ ∀ r ∈ b.exits, r.reduceOnly = true := by
  obtain ⟨hentry, -, -⟩ := splitIntent_inv h
  rw [hentry]
  exact ⟨rfl, rfl, rfl, fun r hr => (splitIntent_exits h r hr).1⟩

/-! ## What the targets get -/

/-- The fractions from the `i`-th target on share what is not allocated yet, so the last target gets
its fraction like the others. -/
theorem allocate_quantities {ts : List (Target × ℚ)} {i : Nat} {allocated : ℚ}
    (hlen : i + ts.length = intent.takeProfits.length)
    (hsum : allocated + qty * (ts.map (·.2)).sum = qty) :
    (allocate newV4 intent qty intentId i allocated ts).map (·.quantity) =
      ts.map fun t => qty * t.2 := by
  induction ts generalizing i allocated with
  | nil => rfl
  | cons t ts ih =>
    obtain ⟨target, frac⟩ := t
    simp only [List.length_cons, List.map_cons, List.sum_cons] at hlen hsum
    unfold allocate
    split
    · rename_i hlast
      obtain rfl : ts = [] := List.length_eq_zero_iff.1 (by omega)
      simp only [List.map_nil, List.sum_nil] at hsum
      simp only [allocate, buildTp, List.map_cons, List.map_nil, List.cons.injEq, and_true]
      linarith
    · have hrest : (allocate newV4 intent qty intentId (i + 1) (allocated + qty * frac) ts).map
          (·.quantity) = ts.map fun t => qty * t.2 := ih (by omega) (by linarith)
      simp only [List.map_cons, hrest]
      rfl

/-- What `build_take_profits` takes a target's weight for. -/
def weightOf (t : Target) : ℚ := max (t.weight.getD 0) 0

theorem normalised_eq : normalised intent =
    if 0 < (intent.takeProfits.map weightOf).sum then
      (intent.takeProfits.map weightOf).map (· / (intent.takeProfits.map weightOf).sum)
    else (intent.takeProfits.map weightOf).map fun _ => 1 / (intent.takeProfits.length : ℚ) := rfl

theorem normalised_length : (normalised intent).length = intent.takeProfits.length := by
  rw [normalised_eq]
  split
  · simp
  · simp

/-- Without a positive weight the total is not positive either. -/
theorem total_pos_iff (targets : List Target) :
    0 < (targets.map weightOf).sum ↔ ∃ t ∈ targets, 0 < weightOf t := by
  have hnonneg : ∀ x ∈ targets.map weightOf, 0 ≤ x := by
    intro x hx
    obtain ⟨t, -, rfl⟩ := List.mem_map.1 hx
    exact le_max_right _ _
  constructor
  · intro htotal
    by_contra hnone
    push Not at hnone
    have hzero : (targets.map weightOf).sum = 0 := by
      refine List.sum_eq_zero fun x hx => le_antisymm ?_ (hnonneg x hx)
      obtain ⟨t, ht, rfl⟩ := List.mem_map.1 hx
      exact hnone t ht
    exact htotal.ne' hzero
  · rintro ⟨t, ht, hpos⟩
    exact lt_of_lt_of_le hpos (List.single_le_sum hnonneg _ (List.mem_map.2 ⟨t, ht, rfl⟩))

theorem normalised_of_pos (h : ∃ t ∈ intent.takeProfits, 0 < weightOf t) :
    normalised intent =
      intent.takeProfits.map fun t => weightOf t / (intent.takeProfits.map weightOf).sum := by
  rw [normalised_eq, if_pos ((total_pos_iff _).2 h), List.map_map]
  rfl

theorem normalised_of_not_pos (h : ¬∃ t ∈ intent.takeProfits, 0 < weightOf t) :
    normalised intent = intent.takeProfits.map fun _ => 1 / (intent.takeProfits.length : ℚ) := by
  rw [normalised_eq, if_neg (mt (total_pos_iff _).1 h), List.map_map]
  rfl

theorem normalised_sum (h : intent.takeProfits ≠ []) : (normalised intent).sum = 1 := by
  by_cases hpos : ∃ t ∈ intent.takeProfits, 0 < weightOf t
  · have htotal := (total_pos_iff _).2 hpos
    simp only [normalised_of_pos hpos, div_eq_mul_inv, List.sum_map_mul_right]
    exact mul_inv_cancel₀ htotal.ne'
  · have hlen : (intent.takeProfits.length : ℚ) ≠ 0 := by simpa using h
    rw [normalised_of_not_pos hpos, List.map_const', List.sum_replicate, nsmul_eq_mul]
    exact mul_one_div_cancel hlen

/-- A fraction is zero for a weight that is not positive beside one that is. -/
theorem normalised_pos_iff : (∀ frac ∈ normalised intent, 0 < frac) ↔
    ((∃ t ∈ intent.takeProfits, 0 < weightOf t) → ∀ t ∈ intent.takeProfits, 0 < weightOf t) := by
  by_cases hpos : ∃ t ∈ intent.takeProfits, 0 < weightOf t
  · have htotal := (total_pos_iff _).2 hpos
    simp only [normalised_of_pos hpos, List.forall_mem_map, hpos, true_imp_iff,
      div_pos_iff_of_pos_right htotal]
  · simp only [normalised_of_not_pos hpos, List.forall_mem_map, hpos, false_imp_iff, iff_true]
    intro t ht
    exact one_div_pos.2 (Nat.cast_pos.2 (List.length_pos_of_mem ht))

/-- Each target gets its fraction of the parent. -/
theorem takeProfit_quantities : (buildTakeProfits newV4 intent qty intentId).map (·.quantity) =
    (normalised intent).map (qty * ·) := by
  have hsnd : (intent.takeProfits.zip (normalised intent)).map (·.2) = normalised intent :=
    List.map_snd_zip normalised_length.le
  have hquantities : (buildTakeProfits newV4 intent qty intentId).map (·.quantity) =
      (intent.takeProfits.zip (normalised intent)).map fun t => qty * t.2 := by
    by_cases hnil : intent.takeProfits = []
    · simp [buildTakeProfits, hnil, allocate]
    · refine allocate_quantities ?_ ?_
      · simp [normalised_length]
      · rw [hsnd, normalised_sum hnil, zero_add, mul_one]
  calc (buildTakeProfits newV4 intent qty intentId).map (·.quantity)
      = ((intent.takeProfits.zip (normalised intent)).map (·.2)).map (qty * ·) := by
        rw [hquantities, List.map_map]
        rfl
    _ = (normalised intent).map (qty * ·) := by rw [hsnd]

/-- What a bracket owes its intent: the targets share the whole quantity, no leg is empty, and the
exits only reduce, on the other side of the entry. -/
structure Faithful (approved : ApprovedIntent) (b : OrderBracket) : Prop where
  split : approved.intent.takeProfits ≠ [] →
    (b.takeProfits.map (·.quantity)).sum = approved.quantity
  positive : ∀ r ∈ b.legs, 0 < r.quantity
  reduces : ∀ r ∈ b.exits, r.reduceOnly = true ∧ r.side = opposite b.entry.side

/-- The sum is always right. -/
theorem splitIntent_sum (h : splitIntent newV4 approved = .ok b)
    (htargets : approved.intent.takeProfits ≠ []) :
    (b.takeProfits.map (·.quantity)).sum = approved.quantity := by
  obtain ⟨-, -, htps⟩ := splitIntent_inv h
  rw [htps, takeProfit_quantities, List.sum_map_mul_left, List.map_id', normalised_sum htargets, mul_one]

/-- The legs are positive when the fractions are. -/
theorem splitIntent_positive_iff (hqty : 0 < approved.quantity)
    (h : splitIntent newV4 approved = .ok b) :
    (∀ r ∈ b.legs, 0 < r.quantity) ↔ ∀ frac ∈ normalised approved.intent, 0 < frac := by
  obtain ⟨hentry, hstop, htps⟩ := splitIntent_inv h
  have htargets : (∀ r ∈ b.takeProfits, 0 < r.quantity) ↔
      ∀ frac ∈ normalised approved.intent, 0 < frac := by
    calc (∀ r ∈ b.takeProfits, 0 < r.quantity)
        ↔ ∀ q ∈ b.takeProfits.map (·.quantity), 0 < q := List.forall_mem_map.symm
      _ ↔ ∀ frac ∈ normalised approved.intent, 0 < approved.quantity * frac := by
        rw [htps, takeProfit_quantities, List.forall_mem_map]
      _ ↔ ∀ frac ∈ normalised approved.intent, 0 < frac := by
        simp only [mul_pos_iff_of_pos_left hqty]
  simp only [OrderBracket.legs, OrderBracket.exits, List.forall_mem_cons, hentry, hstop]
  constructor
  · rintro ⟨-, -, hall⟩
    exact htargets.1 hall
  · intro hall
    exact ⟨hqty, hqty, htargets.2 hall⟩

/-- **splitIntent_faithful_iff**: a target whose weight is not positive gets an order of quantity
zero as soon as another target's weight is. -/
theorem splitIntent_faithful_iff (newV4 : Nat → Uuid) (approved : ApprovedIntent)
    (hqty : 0 < approved.quantity) :
    (∃ b, splitIntent newV4 approved = .ok b ∧ Faithful approved b) ↔
      ((∃ t ∈ approved.intent.takeProfits, 0 < weightOf t) →
        ∀ t ∈ approved.intent.takeProfits, 0 < weightOf t) := by
  rw [← normalised_pos_iff]
  constructor
  · rintro ⟨b, hb, hfaithful⟩
    exact (splitIntent_positive_iff hqty hb).1 hfaithful.positive
  · intro hfracs
    have hok : ∃ b, splitIntent newV4 approved = .ok b := by
      unfold splitIntent
      rw [if_neg (not_le.2 hqty)]
      exact ⟨_, rfl⟩
    obtain ⟨b, hb⟩ := hok
    refine ⟨b, hb, fun htargets => splitIntent_sum hb htargets,
      (splitIntent_positive_iff hqty hb).2 hfracs, ?_⟩
    rw [(splitIntent_ok hb).2.1]
    exact splitIntent_exits hb

end legs

/-- One unit long at 100, for the given targets. -/
def longOne (targets : List Target) : ApprovedIntent where
  id := 0
  approvedAt := 0
  intent := {
    id := 1
    instrument := ⟨"BTCUSDT"⟩
    side := .long
    sizing := .kelly
    entryPrice := some 100
    stopLoss := 90
    takeProfits := targets
    timeInForce := .gtc
    mode := .dry }
  quantity := 1
  notional := 100
  checksPassed := []
  adjustments := []

theorem longOne_faithful :
    ∃ b, splitIntent id (longOne [⟨110, some (3 / 5)⟩, ⟨120, some (2 / 5)⟩]) = .ok b ∧
    Faithful (longOne [⟨110, some (3 / 5)⟩, ⟨120, some (2 / 5)⟩]) b :=
  (splitIntent_faithful_iff id (longOne [⟨110, some (3 / 5)⟩, ⟨120, some (2 / 5)⟩]) (by decide)).2
    fun _ => by decide +kernel

/-- Without a weight, the first target's order is empty. -/
theorem longOne_empty_leg : ¬∃ b, splitIntent id (longOne [⟨110, some 0⟩, ⟨120, some 1⟩]) = .ok b ∧
    Faithful (longOne [⟨110, some 0⟩, ⟨120, some 1⟩]) b := by
  rintro ⟨b, hb, hfaithful⟩
  have hfracs := (splitIntent_positive_iff (by decide) hb).1 hfaithful.positive
  rw [normalised_pos_iff] at hfracs
  have hpos : ∃ t ∈ (longOne [⟨110, some 0⟩, ⟨120, some 1⟩]).intent.takeProfits, 0 < weightOf t := by decide
  exact absurd (hfracs hpos) (by decide)

end Qtss.Execution
