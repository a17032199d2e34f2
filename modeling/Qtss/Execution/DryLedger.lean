import Mathlib.Data.List.DropRight
import Mathlib.Tactic.Linarith
import Mathlib.Tactic.Ring
import Qtss.Lib.Runs
import Qtss.Lib.Keyed
import Qtss.Domain.Commission
/-
# The dry-run ledger (`qtss-execution/src/dry.rs`)

| here | there |
| --- | --- |
| `instrumentPositionKey`   | `instrument_position_key` (dry.rs:22); `trim` is Rust's (Unicode `White_Space`), the upper-casing ASCII only |
| `DryLedgerState`          | `DryLedgerState` (:41) |
| `fillPrice`, `isMakerFill` | `fill_price`, `is_maker_fill` (:71, :84) |
| `priceFill`               | the part of `apply_place` before the `match` on the side (:101-126): nothing is written there |
| `applyPlace`              | `apply_place` (:95); the ledger it leaves behind is returned beside the result, and the id of `Uuid::new_v4` is an argument |

Both sell branches drop a key whose quantity comes to zero and the buy branch does not, so a futures
short that a buy covers stays in the map with quantity zero (`noZero_iff`).
-/

namespace Qtss.Execution.Dry
open Runs Keyed V1

/-- gateway.rs:9. -/
inductive ExecutionError where
  | exchange (reason : String)
  | insufficientPaper
  | pendingApproval
  | other (text : String)
deriving DecidableEq

structure FillEvent where
  clientOrderId : Uuid
  avgPrice : ℚ
  quantity : ℚ
  fee : ℚ
deriving DecidableEq

/-! ## Position keys -/

/-- `char::is_whitespace`: the code points with the Unicode property `White_Space`. -/
def isWhitespace (c : Char) : Bool :=
  let n := c.toNat
  (0x09 ≤ n && n ≤ 0x0D) || n == 0x20 || n == 0x85 || n == 0xA0 || n == 0x1680
    || (0x2000 ≤ n && n ≤ 0x200A) || n == 0x2028 || n == 0x2029 || n == 0x202F || n == 0x205F
    || n == 0x3000

def trim (s : String) : String :=
  String.ofList ((s.toList.dropWhile isWhitespace).rdropWhile isWhitespace)

/-- `Char.toUpper` maps `a`..`z` only. -/
def toAsciiUppercase (s : String) : String := String.ofList (s.toList.map Char.toUpper)

def exchangeName : ExchangeId → String
  | .binance => "binance"
  | .bybit => "bybit"
  | .okx => "okx"
  | .custom => "custom"

def segmentName : MarketSegment → String
  | .spot => "spot"
  | .futures => "futures"
  | .margin => "margin"
  | .options => "options"

/-- dry.rs:22. -/
def instrumentPositionKey (i : InstrumentId) : String :=
  exchangeName i.exchange ++ ":" ++ segmentName i.segment ++ ":" ++ toAsciiUppercase (trim i.symbol)

/-! ## The ledger -/

structure VirtualLedgerParams where
  initialQuoteBalance : ℚ

structure DryLedgerState where
  quoteBalance : ℚ
  baseBySymbol : HashMap String ℚ
  /-- Reference price of market orders, by `instrumentPositionKey`. -/
  marks : HashMap String ℚ

def DryLedgerState.fromParams (p : VirtualLedgerParams) : DryLedgerState :=
  ⟨p.initialQuoteBalance, ∅, ∅⟩

def DryLedgerState.baseQty (l : DryLedgerState) (key : String) : ℚ := (l.baseBySymbol.lookup key).getD 0

structure DryPlaceOutcome where
  clientOrderId : Uuid
  fill : FillEvent
  quoteBalanceAfter : ℚ
  basePositionsAfter : HashMap String ℚ

def fillPrice (intent : OrderIntent) (mark : ℚ) : Except ExecutionError ℚ :=
  match intent.orderType with
  | .market => .ok mark
  | .limit price _ => .ok price
  | .stopMarket stopPrice | .takeProfitMarket stopPrice => .ok stopPrice
  | _ => .error (.other
      "dry: bu emir tipi paper’da simüle edilmez (Market/Limit/StopMarket/TakeProfitMarket)")

def isMakerFill (intent : OrderIntent) : Bool :=
  match intent.orderType with
  | .limit _ postOnly => postOnly
  | _ => false

/-- The terms of a fill. -/
structure Priced where
  key : String
  price : ℚ
  notional : ℚ
  fee : ℚ

/-- dry.rs:101-126. -/
def priceFill (ledger : DryLedgerState) (policy : CommissionPolicy)
    (commissionQuote : Option CommissionQuote) (intent : OrderIntent) (markOverride : Option ℚ) :
    Except ExecutionError Priced := do
  if intent.requiresHumanApproval then
    throw .pendingApproval
  if intent.quantity ≤ 0 then
    throw (.other "dry: miktar pozitif olmalı")
  let key := instrumentPositionKey intent.instrument
  let mark ← match markOverride.or (ledger.marks.lookup key) with
    | some mark => pure mark
    | none => throw (.other ("dry: referans fiyat yok (" ++ key ++ ")"))
  let price ← fillPrice intent mark
  if price ≤ 0 then
    throw (.other "dry: işlem fiyatı pozitif olmalı")
  let rate ← (policy.rateForFill (isMakerFill intent) commissionQuote).mapError .other
  let notional := intent.quantity * price
  return ⟨key, price, notional, commissionFee notional rate⟩

/-- dry.rs:95. -/
def applyPlace (ledger : DryLedgerState) (policy : CommissionPolicy)
    (commissionQuote : Option CommissionQuote) (intent : OrderIntent) (markOverride : Option ℚ)
    (cid : Uuid) : Except ExecutionError DryPlaceOutcome × DryLedgerState :=
  match priceFill ledger policy commissionQuote intent markOverride with
  | .error e => (.error e, ledger)
  | .ok ⟨key, price, notional, fee⟩ =>
    let done (ledger : DryLedgerState) : Except ExecutionError DryPlaceOutcome × DryLedgerState :=
      (.ok ⟨cid, ⟨cid, price, intent.quantity, fee⟩, ledger.quoteBalance, ledger.baseBySymbol⟩,
        ledger)
    match intent.side with
    | .buy =>
      let total := notional + fee
      if ledger.quoteBalance < total then
        (.error .insufficientPaper, ledger)
      else
        done { ledger with
          quoteBalance := ledger.quoteBalance - total
          baseBySymbol := ledger.baseBySymbol.insert key (ledger.baseQty key + intent.quantity) }
    | .sell =>
      let proceeds := notional - fee
      if proceeds < 0 then
        (.error (.other "dry: komisyon brüt tutarı aştı"), ledger)
      else
        match intent.instrument.segment with
        | .futures =>
          let newBase := ledger.baseQty key - intent.quantity
          done { ledger with
            quoteBalance := ledger.quoteBalance + proceeds
            baseBySymbol :=
              if newBase = 0 then ledger.baseBySymbol.erase key
              else ledger.baseBySymbol.insert key newBase }
        | _ =>
          let base := ledger.baseQty key
          if base < intent.quantity then
            (.error .insufficientPaper, ledger)
          else
            let baseBySymbol := ledger.baseBySymbol.insert key (base - intent.quantity)
            done { ledger with
              quoteBalance := ledger.quoteBalance + proceeds
              baseBySymbol :=
                if base - intent.quantity = 0 then baseBySymbol.erase key else baseBySymbol }

/-- The arguments of one call. -/
structure Call where
  policy : CommissionPolicy
  commissionQuote : Option CommissionQuote
  intent : OrderIntent
  markOverride : Option ℚ
  cid : Uuid

def place (ledger : DryLedgerState) (c : Call) :
    Except ExecutionError DryPlaceOutcome × DryLedgerState :=
  applyPlace ledger c.policy c.commissionQuote c.intent c.markOverride c.cid

def step (ledger : DryLedgerState) (c : Call) : DryLedgerState := (place ledger c).2

def Call.priced (c : Call) (ledger : DryLedgerState) : Except ExecutionError Priced :=
  priceFill ledger c.policy c.commissionQuote c.intent c.markOverride

/-- The price that the order type takes: the mark, or the order's own. -/
def Call.price (l : DryLedgerState) (c : Call) : ℚ :=
  match c.intent.orderType with
  | .market => (c.markOverride.or (l.marks.lookup (instrumentPositionKey c.intent.instrument))).getD 0
  | .limit price _ => price
  | .stopMarket stopPrice | .takeProfitMarket stopPrice => stopPrice
  | _ => 0

def Call.fee (l : DryLedgerState) (c : Call) : ℚ :=
  match c.policy.rateForFill (isMakerFill c.intent) c.commissionQuote with
  | .ok rate => commissionFee (c.intent.quantity * c.price l) rate
  | .error _ => 0

/-! ## Keys keep the segments apart -/

theorem takeWhile_colon {a r : List Char} (h : ∀ c ∈ a, c ≠ ':') :
    (a ++ ':' :: r).takeWhile (· ≠ ':') = a := by
  rw [List.takeWhile_append_of_pos fun c hc => decide_eq_true (h c hc)]
  simp

/-- What stands before the first colon, and after it. -/
theorem append_colon_inj {a a' r r' : List Char} (ha : ∀ c ∈ a, c ≠ ':') (ha' : ∀ c ∈ a', c ≠ ':')
    (h : a ++ ':' :: r = a' ++ ':' :: r') : a = a' ∧ r = r' := by
  have haa : a = a' := by rw [← takeWhile_colon (r := r) ha, h, takeWhile_colon ha']
  subst haa
  exact ⟨rfl, (List.cons.inj (List.append_cancel_left h)).2⟩

theorem exchangeName_colon (e : ExchangeId) : ∀ c ∈ (exchangeName e).toList, c ≠ ':' := by
  cases e <;> simp [exchangeName]

theorem segmentName_colon (s : MarketSegment) : ∀ c ∈ (segmentName s).toList, c ≠ ':' := by
  cases s <;> simp [segmentName]

theorem segmentName_injective : Function.Injective segmentName := by
  intro s t h
  cases s <;> cases t <;> first | rfl | exact absurd h (by decide)

theorem key_segment {i j : InstrumentId} (h : instrumentPositionKey i = instrumentPositionKey j) :
    i.segment = j.segment := by
  have hlist := congrArg String.toList h
  simp only [instrumentPositionKey, String.toList_append, List.append_assoc] at hlist
  obtain ⟨-, hrest⟩ := append_colon_inj (exchangeName_colon _) (exchangeName_colon _) hlist
  obtain ⟨hseg, -⟩ := append_colon_inj (segmentName_colon _) (segmentName_colon _) hrest
  exact segmentName_injective (String.toList_injective hseg)

/-! ## One call -/

section call
variable {l l' : DryLedgerState} {c : Call} {p : Priced}

theorem priced_ok (h : c.priced l = .ok p) :
    p.key = instrumentPositionKey c.intent.instrument ∧ 0 < c.intent.quantity
    ∧ p.notional = c.intent.quantity * p.price := by
  simp only [Call.priced, priceFill, bind, Except.bind, pure, Except.pure, throw, throwThe,
    MonadExceptOf.throw] at h
  split at h
  · cases h
  split at h
  · cases h
  rename_i hq
  split at h
  · split at h
    · cases h
    split at h
    · cases h
    split at h
    · cases h
    obtain rfl := Except.ok.inj h
    exact ⟨rfl, not_le.1 hq, rfl⟩
  · cases h

theorem price_of_fillPrice {mark price : ℚ}
    (hmark : c.markOverride.or (l.marks.lookup (instrumentPositionKey c.intent.instrument)) = some mark)
    (h : fillPrice c.intent mark = .ok price) : price = c.price l := by
  unfold fillPrice at h
  unfold Call.price
  cases ht : c.intent.orderType with
  | market => simpa [ht, hmark, eq_comm] using h
  | limit => simpa [ht, eq_comm] using h
  | stopMarket => simpa [ht, eq_comm] using h
  | takeProfitMarket => simpa [ht, eq_comm] using h
  | _ => simp [ht] at h

/-- The fill is at the call's own terms. -/
theorem priced_terms (h : c.priced l = .ok p) : p.price = c.price l ∧ p.fee = c.fee l := by
  simp only [Call.priced, priceFill, bind, Except.bind, pure, Except.pure, throw, throwThe,
    MonadExceptOf.throw] at h
  split at h
  · cases h
  split at h
  · cases h
  split at h
  · next mark hmark =>
    split at h
    · cases h
    next price hprice =>
    split at h
    · cases h
    split at h
    · cases h
    next rate hrate =>
    obtain rfl := Except.ok.inj h
    have hterm : price = c.price l := price_of_fillPrice hmark hprice
    refine ⟨hterm, ?_⟩
    cases hpolicy : c.policy.rateForFill (isMakerFill c.intent) c.commissionQuote with
    | error m => simp [hpolicy, Except.mapError] at hrate
    | ok r =>
      obtain rfl : r = rate := by simpa [hpolicy, Except.mapError] using hrate
      rw [Call.fee, hpolicy, ← hterm]
  · cases h

/-- A buy: paid in full, and the position grows under its key. -/
structure Bought (l : DryLedgerState) (c : Call) (p : Priced) (l' : DryLedgerState) : Prop where
  side : c.intent.side = .buy
  funded : p.notional + p.fee ≤ l.quoteBalance
  quote : l'.quoteBalance = l.quoteBalance - (p.notional + p.fee)
  base : ∀ k, l'.baseBySymbol.lookup k =
    if k = p.key then some (l.baseQty k + c.intent.quantity) else l.baseBySymbol.lookup k

/-- A sell: the fee is within the proceeds, only futures go short, and a position that comes to
zero leaves the map. -/
structure Sold (l : DryLedgerState) (c : Call) (p : Priced) (l' : DryLedgerState) : Prop where
  side : c.intent.side = .sell
  proceeds : 0 ≤ p.notional - p.fee
  covered : c.intent.instrument.segment ≠ .futures → c.intent.quantity ≤ l.baseQty p.key
  quote : l'.quoteBalance = l.quoteBalance + (p.notional - p.fee)
  base : ∀ k, l'.baseBySymbol.lookup k =
    if k = p.key then
      if l.baseQty k - c.intent.quantity = 0 then none else some (l.baseQty k - c.intent.quantity)
    else l.baseBySymbol.lookup k

/-- What a call that fills returns. -/
def Call.outcome (c : Call) (p : Priced) (l' : DryLedgerState) : DryPlaceOutcome :=
  ⟨c.cid, ⟨c.cid, p.price, c.intent.quantity, p.fee⟩, l'.quoteBalance, l'.baseBySymbol⟩

theorem lookup_prune {m : HashMap String ℚ} {key : String} {q : ℚ} (k : String) :
    (if q = 0 then m.erase key else m.insert key q).lookup k =
      if k = key then if q = 0 then none else some q else m.lookup k := by
  by_cases hz : q = 0 <;> by_cases hk : k = key <;> simp [hz, hk]

/-- **One call**: refused with nothing written, or filled at the priced terms. -/
theorem place_cases (l : DryLedgerState) (c : Call) :
    (∃ e, place l c = (.error e, l))
    ∨ ∃ p, c.priced l = .ok p ∧ (place l c).1 = .ok (c.outcome p (step l c))
      ∧ (Bought l c p (step l c) ∨ Sold l c p (step l c)) := by
  unfold step
  cases hp : c.priced l with
  | error e =>
    left
    refine ⟨e, ?_⟩
    rw [place, applyPlace, show priceFill l _ _ _ _ = .error e from hp]
  | ok p =>
    generalize hplace : place l c = r
    rw [place, applyPlace, show priceFill l _ _ _ _ = .ok p from hp] at hplace
    simp only at hplace
    split at hplace
    · rename_i hside
      split at hplace
      · exact .inl ⟨_, hplace.symm⟩
      · rename_i hfund
        refine .inr ⟨p, rfl, by rw [← hplace]; rfl, .inl ?_⟩
        rw [← hplace]
        refine ⟨hside, not_lt.1 hfund, rfl, fun k => ?_⟩
        by_cases hk : k = p.key <;> simp [hk]
    · rename_i hside
      split at hplace
      · exact .inl ⟨_, hplace.symm⟩
      · rename_i hproceeds
        split at hplace
        · rename_i hseg
          refine .inr ⟨p, rfl, by rw [← hplace]; rfl, .inr ?_⟩
          rw [← hplace]
          refine ⟨hside, not_lt.1 hproceeds, fun h => absurd hseg h, rfl, fun k => ?_⟩
          rw [lookup_prune]
          by_cases hk : k = p.key <;> simp [hk]
        · split at hplace
          · exact .inl ⟨_, hplace.symm⟩
          · rename_i hbase
            refine .inr ⟨p, rfl, by rw [← hplace]; rfl, .inr ?_⟩
            rw [← hplace]
            refine ⟨hside, not_lt.1 hproceeds, fun _ => not_lt.1 hbase, rfl, fun k => ?_⟩
            by_cases hk : k = p.key <;> by_cases hz : l.baseQty p.key - c.intent.quantity = 0 <;>
              simp [hz, hk]

theorem Bought.baseQty (h : Bought l c p l') (k : String) :
    l'.baseQty k = l.baseQty k + if k = p.key then c.intent.quantity else 0 := by
  rw [DryLedgerState.baseQty, h.base]
  by_cases hk : k = p.key <;> simp [hk, DryLedgerState.baseQty]

theorem Sold.baseQty (h : Sold l c p l') (k : String) :
    l'.baseQty k = l.baseQty k - if k = p.key then c.intent.quantity else 0 := by
  rw [DryLedgerState.baseQty, h.base]
  by_cases hk : k = p.key
  · rw [if_pos hk, if_pos hk]
    split
    · rename_i hz
      exact hz.symm
    · rfl
  · simp [hk, DryLedgerState.baseQty]

end call

/-! ## Conservation -/

/-- What a call is worth, if it succeeds on `side`. -/
def succeeded (side : OrderSide) (f : DryLedgerState → Call → ℚ) (l : DryLedgerState) (c : Call) : ℚ :=
  match (place l c).1 with
  | .ok _ => if c.intent.side = side then f l c else 0
  | .error _ => 0

/-- The quantity of a call for the instruments of a key. -/
def quantityAt (k : String) (_ : DryLedgerState) (c : Call) : ℚ :=
  if instrumentPositionKey c.intent.instrument = k then c.intent.quantity else 0

def Call.cost (l : DryLedgerState) (c : Call) : ℚ := c.intent.quantity * c.price l + c.fee l
def Call.proceeds (l : DryLedgerState) (c : Call) : ℚ := c.intent.quantity * c.price l - c.fee l

/-- No instrument outside the futures segment is short. -/
def NoShort (l : DryLedgerState) : Prop :=
  ∀ i : InstrumentId, i.segment ≠ .futures → 0 ≤ l.baseQty (instrumentPositionKey i)

theorem step_quoteBalance (l : DryLedgerState) (c : Call) : (step l c).quoteBalance =
    l.quoteBalance + (succeeded .sell (fun l c => c.proceeds l) l c - succeeded .buy (fun l c => c.cost l) l c) := by
  rcases place_cases l c with ⟨e, he⟩ | ⟨p, hp, hout, hside⟩
  · simp [step, succeeded, he]
  · obtain ⟨-, -, hnotional⟩ := priced_ok hp
    obtain ⟨hprice, hfee⟩ := priced_terms hp
    rcases hside with h | h
    · have hsell : succeeded .sell (fun l c => c.proceeds l) l c = 0 := by simp [succeeded, hout, h.side]
      have hbuy : succeeded .buy (fun l c => c.cost l) l c = p.notional + p.fee := by
        simp [succeeded, hout, h.side, Call.cost, hnotional, hprice, hfee]
      rw [h.quote, hsell, hbuy]
      ring
    · have hbuy : succeeded .buy (fun l c => c.cost l) l c = 0 := by simp [succeeded, hout, h.side]
      have hsell : succeeded .sell (fun l c => c.proceeds l) l c = p.notional - p.fee := by
        simp [succeeded, hout, h.side, Call.proceeds, hnotional, hprice, hfee]
      rw [h.quote, hsell, hbuy, sub_zero]

theorem step_baseQty (k : String) (l : DryLedgerState) (c : Call) : (step l c).baseQty k =
    l.baseQty k + (succeeded .buy (quantityAt k) l c - succeeded .sell (quantityAt k) l c) := by
  rcases place_cases l c with ⟨e, he⟩ | ⟨p, hp, hout, hside⟩
  · simp [step, succeeded, he]
  · obtain ⟨hkey, -, -⟩ := priced_ok hp
    rcases hside with h | h
    · rw [h.baseQty, succeeded, succeeded, hout, h.side, hkey]
      simp [quantityAt, eq_comm]
    · rw [h.baseQty, succeeded, succeeded, hout, h.side, hkey]
      simp [quantityAt, eq_comm, sub_eq_add_neg]

theorem step_of_error {l : DryLedgerState} {c : Call} {e : ExecutionError}
    (h : (place l c).1 = .error e) : step l c = l := by
  rcases place_cases l c with ⟨e', he⟩ | ⟨p, -, hout, -⟩
  · rw [step, he]
  · rw [hout] at h
    cases h

theorem step_quoteBalance_nonneg (l : DryLedgerState) (c : Call) (h : 0 ≤ l.quoteBalance) :
    0 ≤ (step l c).quoteBalance := by
  rcases place_cases l c with ⟨e, he⟩ | ⟨p, -, -, hb | hs⟩
  · rwa [step, he]
  · rw [hb.quote]
    linarith [hb.funded]
  · rw [hs.quote]
    linarith [hs.proceeds]

/-- A sell outside the futures segment is covered, and no futures key is one of its keys. -/
theorem step_noShort (l : DryLedgerState) (c : Call) (h : NoShort l) : NoShort (step l c) := by
  intro i hi
  have hl := h i hi
  rcases place_cases l c with ⟨e, he⟩ | ⟨p, hp, -, hb | hs⟩
  · rwa [step, he]
  · obtain ⟨-, hq, -⟩ := priced_ok hp
    rw [hb.baseQty]
    split <;> linarith
  · obtain ⟨hkey, -, -⟩ := priced_ok hp
    rw [hs.baseQty]
    split
    · rename_i hik
      have hseg : c.intent.instrument.segment ≠ .futures := by
        rw [← key_segment (hik.trans hkey)]
        exact hi
      have := hs.covered hseg
      rw [← hik] at this
      linarith
    · linarith

/-- **Conservation**: over any run of calls the quote balance moves by what the fills cost and
bring in, each key by what is bought and sold under it, and a refused call changes nothing; from a
balance that is not negative, and without shorts outside futures, both stay so. -/
theorem ledger_conserved (s : DryLedgerState) (calls : List Call) :
    (run step s calls).quoteBalance =
        s.quoteBalance - total step (succeeded .buy fun l c => c.cost l) s calls
          + total step (succeeded .sell fun l c => c.proceeds l) s calls
    ∧ (∀ k, (run step s calls).baseQty k =
        s.baseQty k + total step (succeeded .buy (quantityAt k)) s calls
          - total step (succeeded .sell (quantityAt k)) s calls)
    ∧ AllSteps step (fun l c => ∀ e, (place l c).1 = .error e → (place l c).2 = l) s calls
    ∧ (0 ≤ s.quoteBalance → AllStates step (fun l => 0 ≤ l.quoteBalance) s calls)
    ∧ (NoShort s → AllStates step NoShort s calls) := by
  refine ⟨?_, fun k => ?_, allSteps_of_forall (fun l c e => step_of_error) s calls,
    fun h => allStates_of_step (J := fun l : DryLedgerState => 0 ≤ l.quoteBalance) step_quoteBalance_nonneg h calls,
    fun h => allStates_of_step (J := NoShort) step_noShort h calls⟩
  · rw [measure_run_all (E := DryLedgerState.quoteBalance) step_quoteBalance, total_sub]
    ring
  · rw [measure_run_all (E := fun l => DryLedgerState.baseQty l k) (step_baseQty k), total_sub]
    ring

/-- A futures short of one, opened and bought back at 10. -/
def roundTrip : List Call :=
  [.sell, .buy].map fun side =>
    ⟨.manualBps 2 5, none, ⟨⟨.binance, .futures, "BTCUSDT"⟩, side, 1, .market, false⟩, some 10, 0⟩

def funded : DryLedgerState := .fromParams ⟨100⟩

theorem roundTrip_conserved :
    (run step funded roundTrip).quoteBalance =
        funded.quoteBalance - total step (succeeded .buy fun l c => c.cost l) funded roundTrip
          + total step (succeeded .sell fun l c => c.proceeds l) funded roundTrip
    ∧ AllStates step (fun l => 0 ≤ l.quoteBalance) funded roundTrip
    ∧ AllStates step NoShort funded roundTrip := by
  obtain ⟨hquote, -, -, hnonneg, hshort⟩ := ledger_conserved funded roundTrip
  exact ⟨hquote, hnonneg (by decide +kernel), hshort fun _ _ => le_rfl⟩

/-! ## Closed positions -/

/-- No key is kept for a quantity of zero. -/
def NoZero (l : DryLedgerState) : Prop := ∀ k, l.baseBySymbol.lookup k ≠ some 0

/-- The call is a buy that the ledger can pay. -/
def PaidBuy (l : DryLedgerState) (c : Call) : Prop :=
  c.intent.side = .buy ∧ ∃ p, c.priced l = .ok p ∧ p.notional + p.fee ≤ l.quoteBalance

/-- The call is not a paid buy of exactly what the ledger is short. -/
def NotCovering (l : DryLedgerState) (c : Call) : Prop :=
  PaidBuy l c → l.baseQty (instrumentPositionKey c.intent.instrument) + c.intent.quantity ≠ 0

theorem place_paidBuy {l : DryLedgerState} {c : Call} (h : PaidBuy l c) :
    ∃ p, c.priced l = .ok p ∧ Bought l c p (step l c) := by
  obtain ⟨hside, p, hp, hfund⟩ := h
  rcases place_cases l c with ⟨e, he⟩ | ⟨p', hp', -, hb | hs⟩
  · rw [place, applyPlace, show priceFill l _ _ _ _ = .ok p from hp] at he
    simp only [hside, not_lt.2 hfund, if_false, Prod.mk.injEq, reduceCtorEq, false_and] at he
  · exact ⟨p', hp', hb⟩
  · exact absurd (hside.symm.trans hs.side) (by decide)

theorem noZero_step {l : DryLedgerState} {c : Call} (h : NoZero l) (hc : NotCovering l c) :
    NoZero (step l c) := by
  intro k
  rcases place_cases l c with ⟨e, he⟩ | ⟨p, hp, -, hb | hs⟩
  · rw [step, he]
    exact h k
  · obtain ⟨hkey, -, -⟩ := priced_ok hp
    rw [hb.base]
    split
    · rename_i hk
      rw [hk, hkey, ne_eq, Option.some.injEq]
      exact hc ⟨hb.side, p, hp, hb.funded⟩
    · exact h k
  · rw [hs.base]
    split
    · split
      · exact nofun
      · rename_i hne
        rwa [ne_eq, Option.some.injEq]
    · exact h k

theorem not_noZero_step {l : DryLedgerState} {c : Call} (hc : ¬ NotCovering l c) :
    ¬ NoZero (step l c) := by
  obtain ⟨hpaid, hzero⟩ := Classical.not_imp.1 hc
  obtain ⟨p, hp, hb⟩ := place_paidBuy hpaid
  obtain ⟨hkey, -, -⟩ := priced_ok hp
  intro h
  refine h p.key ?_
  rw [hb.base, if_pos rfl, hkey, not_not.1 hzero]

/-- **Closed positions leave the map** along a run from fresh parameters exactly when no paid buy of
the run is of just what the ledger is short. -/
theorem noZero_iff (params : VirtualLedgerParams) (calls : List Call) :
    AllStates step NoZero (.fromParams params) calls ↔
      AllSteps step NotCovering (.fromParams params) calls :=
  @allStates_iff_allSteps _ _ _ NoZero _ _ (fun _ => True) (fun _ h => h)
    (fun _ _ h _ hc => noZero_step h hc) (fun _ _ _ _ hc => not_noZero_step hc) _ _
    (fun _ => nofun) fun _ _ => trivial

theorem covered_short_stays : ¬ AllStates step NoZero (.fromParams ⟨100⟩) roundTrip := by
  intro h
  exact h.2.2 "binance:futures:BTCUSDT" (by decide +kernel)

end Qtss.Execution.Dry
