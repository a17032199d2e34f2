import Qtss.Lib.AverageCost
import Qtss.Portfolio.Position
import Qtss.Lib.Runs
/-
# Average-cost accounting of one position

A position that is kept at average cost has, after any fills,

    realised = (notional sold) - (notional bought) - fees + net * avg_entry

(`CostIdentity`), because every unit is carried at what was paid for it, and a fill that only
reduces it realises the distance to the average entry per unit (`ReducesAtAverage`). `apply_fill`
(position.rs:50) misses both on the two routes where it should reduce: it refines the textbook book
(`Book.fill`) exactly on the fills that are no partial reduction and no exact close away from the
average entry (`KeepsCost`, `fill_refines_iff`). `cost_identity_iff` turns that into the exact
condition on a run of fills.
-/

namespace Qtss.Portfolio
open Runs AverageCost

/-- The arguments of one `apply_fill` call. -/
structure Fill where
  side : Side
  qty : ℚ
  price : ℚ
  fee : ℚ
deriving DecidableEq

/-- A position and the fills it has been given since it was flat. -/
structure Taped where
  pos : Position
  tape : List Fill

def Taped.flat (symbol : String) : Taped := ⟨.flat symbol, []⟩

def Taped.fill (s : Taped) (f : Fill) : Taped :=
  ⟨(s.pos.applyFill f.side f.qty f.price f.fee).1, s.tape ++ [f]⟩

/-- Total notional of the fills on one side. -/
def notional (side : Side) (fs : List Fill) : ℚ :=
  ((fs.filter (·.side = side)).map fun f => f.qty * f.price).sum

def fees (fs : List Fill) : ℚ := (fs.map (·.fee)).sum

/-- What the open quantity was entered for. -/
def Position.cost (p : Position) : ℚ := p.net * p.avgEntry

def CostIdentity (s : Taped) : Prop :=
  s.pos.realisedPnl = notional .short s.tape - notional .long s.tape - fees s.tape + s.pos.cost

instance (s : Taped) : Decidable (CostIdentity s) := by unfold CostIdentity; infer_instance

/-- A fill that only reduces or closes the position keeps the average entry of what is left and
realises the distance to it per closed unit, less the fee. -/
def ReducesAtAverage (s : Taped) (f : Fill) : Prop :=
  ∀ side ∈ s.pos.side, f.side ≠ side → f.qty ≤ s.pos.quantity →
    (f.qty < s.pos.quantity → (s.fill f).pos.avgEntry = s.pos.avgEntry) ∧
    (s.pos.applyFill f.side f.qty f.price f.fee).2 = s.pos.pnlPerUnit f.price * f.qty - f.fee

/-- The fill is no partial reduction, and an exact close only at the average entry. (A partial
reduction also passes when the price and the average entry are both zero.) -/
def KeepsCost (s : Taped) (f : Fill) : Prop :=
  ∀ side ∈ s.pos.side, f.side ≠ side →
    (f.qty < s.pos.quantity → f.price = 0 ∧ s.pos.avgEntry = 0) ∧
    (f.qty = s.pos.quantity → f.price = s.pos.avgEntry)

instance (s : Taped) (f : Fill) : Decidable (ReducesAtAverage s f) := by
  unfold ReducesAtAverage; infer_instance

instance (s : Taped) (f : Fill) : Decidable (KeepsCost s f) := by
  unfold KeepsCost; infer_instance

/-! ## What one fill does to the cost -/

section fill
variable {p : Position} {s side : Side} {qty price fee m y : ℚ}

theorem signed_mul_div (hm : 0 < m) : signed s m * (y / |signed s m|) = signed s y := by
  rw [signed_abs hm]
  cases s <;> simp only [signed] <;> field_simp

theorem same_side_net (hps : p.side = some s) (qty : ℚ) :
    p.net + signed s qty = signed s (p.quantity + qty) := by
  rw [Position.net_of_side hps]
  cases s
  · rfl
  · simp only [signed]; ring

theorem other_side_net (hps : p.side = some s) (hne : side ≠ s) (qty : ℚ) :
    p.net + signed side qty = signed s (p.quantity - qty) := by
  rw [Position.net_of_side hps]
  cases s <;> cases side <;> simp only [signed, ne_eq, not_true_eq_false] at hne ⊢ <;> ring

theorem signed_mul_signed (s : Side) (a b : ℚ) : signed s a * signed s b = a * b := by
  cases s <;> simp [signed]

/-- On the extending route the fill's notional goes into the cost with the sign of the
*position*, whatever the side of the fill. -/
theorem book_extend_cost (h : p.Ok) (hps : p.side = some s) (hq : 0 < qty) (hm : 0 < m)
    (hnet : p.net + signed side qty = signed s m) :
    (p.book side qty price).1.cost = p.cost + signed s qty * price := by
  have hpq : 0 < p.quantity := by simpa [Position.Ok, hps] using h
  have hs : 0 < p.net * (p.net + signed side qty) := by
    rw [hnet, Position.net_of_side hps, signed_mul_signed]; exact mul_pos hpq hm
  have hcost : (p.book side qty price).1.cost =
      (p.net + signed side qty) * (p.book side qty price).1.avgEntry := by
    rw [Position.cost, (book_net h hq _ _).2]
  rw [hcost, book_extend hs, hnet, h.abs_net, signed_mul_div hm, Position.cost,
    Position.net_of_side hps]
  cases s <;> simp only [signed] <;> ring

end fill

/-! ## Runs of fills -/

theorem notional_append (side : Side) (fs : List Fill) (f : Fill) :
    notional side (fs ++ [f]) = notional side fs + if f.side = side then f.qty * f.price else 0 := by
  by_cases h : f.side = side <;> simp [notional, h]

theorem fees_append (fs : List Fill) (f : Fill) : fees (fs ++ [f]) = fees fs + f.fee := by
  simp [fees]

/-! ## The book behind a position -/

/-- The position as a book at average cost; a book knows no fees, so they are added back. -/
def Taped.toBook (s : Taped) : Book ℚ := ⟨s.pos.net, s.pos.cost, s.pos.realisedPnl + fees s.tape⟩

section book
variable {s : Taped} {f : Fill} {side : Side}

theorem toBook_ok (s : Taped) : s.toBook.Ok := by
  intro hn
  have hn' : s.pos.net = 0 := hn
  simp [Taped.toBook, Position.cost, hn']

theorem toBook_avg (hn : s.pos.net ≠ 0) : s.toBook.avg = s.pos.avgEntry := by
  simp only [Taped.toBook, Book.avg, Position.cost]
  exact mul_div_cancel_left₀ _ hn

theorem toBook_fill (h : s.pos.Ok) (hq : 0 < f.qty) :
    (s.fill f).toBook = ⟨s.pos.net + signed f.side f.qty, (s.pos.book f.side f.qty f.price).1.cost,
      s.pos.realisedPnl + fees s.tape + (s.pos.book f.side f.qty f.price).2⟩ := by
  have hnet := (book_net h hq f.side f.price).2
  simp only [Taped.toBook, Taped.fill, Position.cost, applyFill_net h hq, applyFill_avgEntry h hq,
    applyFill_realisedPnl h hq, applyFill_snd, fees_append, hnet, Book.mk.injEq, true_and]
  ring

/-- The cost identity says that the book has realised the cash of the fills. -/
theorem costIdentity_iff_flow :
    CostIdentity s ↔
      s.toBook.realised - s.toBook.cost = notional .short s.tape - notional .long s.tape := by
  unfold CostIdentity Taped.toBook
  constructor <;> intro h <;> linarith

theorem signed_opposite (hside : f.side ≠ side) (qty : ℚ) : signed f.side qty = -signed side qty := by
  cases hf : f.side <;> cases side <;> simp_all [signed]

/-- A fill on the side of the position, or on a flat one, adds. -/
theorem refines_add (h : s.pos.Ok) (hq : 0 < f.qty) (hside : ∀ side ∈ s.pos.side, f.side = side) :
    (s.fill f).toBook = s.toBook.fill (signed f.side f.qty) f.price := by
  rw [toBook_fill h hq]
  rcases h.cases with ⟨hps, -, hn⟩ | ⟨side, hps, hpq, hn⟩
  · have hcost : (s.pos.book f.side f.qty f.price).1.cost = signed f.side f.qty * f.price := by
      rw [Position.cost, (book_net h hq _ _).2, book_open hq hn, hn, zero_add]
    have hadd : 0 ≤ s.toBook.net * signed f.side f.qty := by simp [Taped.toBook, hn]
    rw [Book.fill_add hadd, hcost, book_open hq hn]
    simp [Taped.toBook, Position.cost, hn]
  · obtain rfl := hside side hps
    have hnet := same_side_net hps f.qty
    have hm : 0 < s.pos.quantity + f.qty := by linarith
    have hadd : 0 ≤ s.toBook.net * signed f.side f.qty := by
      simp only [Taped.toBook, hn, signed_mul_signed]
      exact (mul_pos hpq hq).le
    have hpnl : (s.pos.book f.side f.qty f.price).2 = 0 := by
      rw [book_pnl h hq, hnet, hn, signed_mul_signed, if_neg (mul_pos hpq hm).le.not_gt]
    rw [Book.fill_add hadd, book_extend_cost h hps hq hm hnet, hpnl, add_zero]
    rfl

section other
variable (h : s.pos.Ok) (hps : s.pos.side = some side) (hq : 0 < f.qty) (hside : f.side ≠ side)
include h hps hq hside

theorem other_side_reduces :
    s.toBook.net * signed f.side f.qty < 0 ∧ |signed f.side f.qty| = f.qty ∧
      |s.toBook.net| = s.pos.quantity ∧ s.toBook.avg = s.pos.avgEntry := by
  have hpq : 0 < s.pos.quantity := by simpa [Position.Ok, hps] using h
  have hn := Position.net_of_side hps
  refine ⟨?_, signed_abs hq, h.abs_net, toBook_avg (hn ▸ signed_ne_zero side hpq)⟩
  simp only [Taped.toBook, hn, signed_opposite hside, mul_neg, signed_mul_signed]
  exact neg_neg_of_pos (mul_pos hpq hq)

/-- A partial reduction goes into the cost as an addition would: right only for nothing at no
price. -/
theorem refines_reduce_iff (hlt : f.qty < s.pos.quantity) :
    (s.fill f).toBook = s.toBook.fill (signed f.side f.qty) f.price ↔
      f.price = 0 ∧ s.pos.avgEntry = 0 := by
  obtain ⟨hneg, hd, hn, havg⟩ := other_side_reduces h hps hq hside
  have hpq : 0 < s.pos.quantity := hq.trans hlt
  have hm : 0 < s.pos.quantity - f.qty := by linarith
  have hnet := other_side_net hps hside f.qty
  have hd0 : signed side f.qty ≠ 0 := signed_ne_zero side hq
  have hpnl : (s.pos.book f.side f.qty f.price).2 = 0 := by
    rw [book_pnl h hq, hnet, Position.net_of_side hps, signed_mul_signed,
      if_neg (mul_pos hpq hm).le.not_gt]
  rw [toBook_fill h hq, Book.fill_reduce hneg (by rw [hd, hn]; exact hlt.le), havg,
    book_extend_cost h hps hq hm hnet, hpnl, signed_opposite hside]
  simp only [Taped.toBook, Book.mk.injEq, true_and]
  constructor
  · rintro ⟨hcost, hreal⟩
    have hsum : f.price + s.pos.avgEntry = 0 := mul_left_cancel₀ hd0 (by linarith)
    have hdiff : f.price - s.pos.avgEntry = 0 := mul_left_cancel₀ hd0 (by linarith)
    constructor <;> linarith
  · rintro ⟨hprice, havg0⟩
    simp [hprice, havg0]

/-- An exact close drops the cost without realising anything: right only at the average entry. -/
theorem refines_close_iff (heq : f.qty = s.pos.quantity) :
    (s.fill f).toBook = s.toBook.fill (signed f.side f.qty) f.price ↔
      f.price = s.pos.avgEntry := by
  obtain ⟨hneg, hd, hn, havg⟩ := other_side_reduces h hps hq hside
  have hz : s.pos.net + signed f.side f.qty = 0 := by
    rw [other_side_net hps hside, heq, sub_self]
    cases side <;> simp [signed]
  have hd0 : signed f.side f.qty ≠ 0 := signed_ne_zero f.side hq
  have hcost : (s.pos.book f.side f.qty f.price).1.cost = 0 := by
    rw [Position.cost, (book_net h hq _ _).2, hz, zero_mul]
  have hcost' : s.pos.cost + signed f.side f.qty * s.pos.avgEntry = 0 := by
    rw [Position.cost, ← add_mul, hz, zero_mul]
  rw [toBook_fill h hq, Book.fill_reduce hneg (by rw [hd, hn]; exact heq.le), havg, hcost,
    book_close hz]
  simp only [Taped.toBook, Book.mk.injEq, true_and, hcost', add_zero]
  rw [eq_comm, sub_eq_self, mul_eq_zero, or_iff_right hd0, sub_eq_zero]

/-- A flip closes at the fill price and opens the rest there. -/
theorem refines_flip (hgt : s.pos.quantity < f.qty) :
    (s.fill f).toBook = s.toBook.fill (signed f.side f.qty) f.price := by
  obtain ⟨hneg, hd, hn, havg⟩ := other_side_reduces h hps hq hside
  have hpq : 0 < s.pos.quantity := by simpa [Position.Ok, hps] using h
  have hs : s.pos.net * (s.pos.net + signed f.side f.qty) < 0 := by
    rw [other_side_net hps hside, Position.net_of_side hps, signed_mul_signed]
    exact mul_neg_of_pos_of_neg hpq (by linarith)
  have hcost : (s.pos.book f.side f.qty f.price).1.cost =
      (s.pos.net + signed f.side f.qty) * f.price := by
    rw [Position.cost, (book_net h hq _ _).2, book_flip h hq hs]
  rw [toBook_fill h hq, Book.fill_flip hneg (by rw [hd, hn]; exact hgt), havg, hcost,
    book_pnl h hq, if_pos hs]
  rfl

/-- A reduction or close is right exactly when it is one of the book: both keep the net quantity,
so what is left to agree on is the average entry and the pnl. -/
theorem reduces_iff_refines (hle : f.qty ≤ s.pos.quantity) :
    ((f.qty < s.pos.quantity → (s.fill f).pos.avgEntry = s.pos.avgEntry) ∧
      (s.pos.applyFill f.side f.qty f.price f.fee).2 = s.pos.pnlPerUnit f.price * f.qty - f.fee) ↔
    (s.fill f).toBook = s.toBook.fill (signed f.side f.qty) f.price := by
  obtain ⟨hneg, hd, hn, havg⟩ := other_side_reduces h hps hq hside
  have hnet := other_side_net hps hside f.qty
  have havg' : (s.fill f).pos.avgEntry = (s.pos.book f.side f.qty f.price).1.avgEntry :=
    applyFill_avgEntry h hq
  have hcost : (s.pos.book f.side f.qty f.price).1.cost =
      (s.pos.net + signed f.side f.qty) * (s.fill f).pos.avgEntry := by
    rw [Position.cost, (book_net h hq _ _).2, havg']
  have hcarry : s.pos.cost + signed f.side f.qty * s.pos.avgEntry =
      (s.pos.net + signed f.side f.qty) * s.pos.avgEntry := by
    rw [Position.cost, add_mul]
  have hpnl : signed f.side f.qty * (f.price - s.pos.avgEntry) =
      -(s.pos.pnlPerUnit f.price * f.qty) := by
    rw [signed_opposite hside]
    cases side <;> simp only [Position.pnlPerUnit, hps, signed] <;> ring
  rw [toBook_fill h hq, Book.fill_reduce hneg (by rw [hd, hn]; exact hle), havg, applyFill_snd]
  simp only [Taped.toBook, Book.mk.injEq, true_and, hcost, hcarry, hpnl]
  have hreal : -f.fee + (s.pos.book f.side f.qty f.price).2 =
        s.pos.pnlPerUnit f.price * f.qty - f.fee ↔
      s.pos.realisedPnl + fees s.tape + (s.pos.book f.side f.qty f.price).2 =
        s.pos.realisedPnl + fees s.tape - -(s.pos.pnlPerUnit f.price * f.qty) := by
    constructor <;> intro hr <;> linarith
  refine and_congr ?_ hreal
  rcases hle.lt_or_eq with hlt | heq
  · have hleft : s.pos.net + signed f.side f.qty ≠ 0 :=
      hnet ▸ signed_ne_zero side (sub_pos.2 hlt)
    simp only [hlt, forall_const, mul_right_inj' hleft]
  · have hz : s.pos.net + signed f.side f.qty = 0 := by
      rw [hnet, heq, sub_self]
      cases side <;> simp [signed]
    simp only [heq.not_lt, false_imp_iff, hz, zero_mul]

end other

/-- **The refinement**: a fill does to the position what it does to the book exactly when it keeps
the cost. -/
theorem fill_refines_iff (h : s.pos.Ok) (hq : 0 < f.qty) :
    (s.fill f).toBook = s.toBook.fill (signed f.side f.qty) f.price ↔ KeepsCost s f := by
  cases hps : s.pos.side with
  | none => exact iff_of_true (refines_add h hq (by simp [hps])) (by simp [KeepsCost, hps])
  | some side =>
    simp only [KeepsCost, hps, Option.mem_def, Option.some.injEq, forall_eq']
    by_cases hside : f.side = side
    · exact iff_of_true (refines_add h hq (by simp [hps, hside])) fun hne => absurd hside hne
    · simp only [ne_eq, hside, not_false_eq_true, forall_const]
      rcases lt_trichotomy f.qty s.pos.quantity with hlt | heq | hgt
      · rw [refines_reduce_iff h hps hq hside hlt]
        simp [hlt, hlt.ne]
      · rw [refines_close_iff h hps hq hside heq]
        simp [heq]
      · refine iff_of_true (refines_flip h hps hq hside hgt) ?_
        simp [hgt.not_gt, hgt.ne']

/-- Every reduction being right says the same: additions and flips always refine. -/
theorem reducesAtAverage_iff (h : s.pos.Ok) (hq : 0 < f.qty) :
    ReducesAtAverage s f ↔
      (s.fill f).toBook = s.toBook.fill (signed f.side f.qty) f.price := by
  cases hps : s.pos.side with
  | none =>
    exact iff_of_true (by simp [ReducesAtAverage, hps]) (refines_add h hq (by simp [hps]))
  | some side =>
    simp only [ReducesAtAverage, hps, Option.mem_def, Option.some.injEq, forall_eq']
    by_cases hside : f.side = side
    · exact iff_of_true (fun hne => absurd hside hne) (refines_add h hq (by simp [hps, hside]))
    · simp only [ne_eq, hside, not_false_eq_true, forall_const]
      rcases le_or_gt f.qty s.pos.quantity with hle | hgt
      · rw [← reduces_iff_refines h hps hq hside hle]
        simp [hle]
      · exact iff_of_true (fun hle => absurd hle hgt.not_ge) (refines_flip h hps hq hside hgt)

/-- A fill that keeps the cost keeps the identity: the law of the book. -/
theorem costIdentity_fill (h : s.pos.Ok) (hi : CostIdentity s) (hq : 0 < f.qty)
    (hk : KeepsCost s f) : CostIdentity (s.fill f) := by
  have hflow := Book.fill_flow (toBook_ok s) (signed f.side f.qty) f.price
  have htape : notional .short (s.tape ++ [f]) - notional .long (s.tape ++ [f]) =
      notional .short s.tape - notional .long s.tape - signed f.side f.qty * f.price := by
    rw [notional_append, notional_append]
    cases f.side <;> simp [signed] <;> ring
  rw [costIdentity_iff_flow] at hi ⊢
  rw [(fill_refines_iff h hq).2 hk, hflow, hi]
  exact htape.symm

end book

/-- **`cost_identity_iff`**: along any run of fills from flat, the position is at average cost in
every state and every reduction is right exactly when every fill keeps the cost. -/
theorem cost_identity_iff (symbol : String) (fs : List Fill) (hfs : ∀ f ∈ fs, 0 < f.qty) :
    (AllStates Taped.fill CostIdentity (Taped.flat symbol) fs ∧
      AllSteps Taped.fill ReducesAtAverage (Taped.flat symbol) fs) ↔
    AllSteps Taped.fill KeepsCost (Taped.flat symbol) fs := by
  have hflat : (Taped.flat symbol).pos.Ok := ok_flat symbol
  have hstep : ∀ (s : Taped) (f : Fill), s.pos.Ok → 0 < f.qty → (s.fill f).pos.Ok :=
    fun _ _ => applyFill_ok
  -- the reductions are right exactly when the fills keep the cost
  have hred : AllSteps Taped.fill ReducesAtAverage (Taped.flat symbol) fs ↔
      AllSteps Taped.fill KeepsCost (Taped.flat symbol) fs := by
    exact allSteps_congr hstep
      (fun s f hs hq => (reducesAtAverage_iff hs hq).trans (fill_refines_iff hs hq)) hflat hfs
  rw [hred]
  refine and_iff_right_of_imp fun hk => ?_
  -- and then every fill is one of the book behind the position
  have hstart : (Taped.flat symbol).pos.Ok ∧ CostIdentity (Taped.flat symbol) :=
    ⟨hflat, by simp [CostIdentity, Taped.flat, Position.flat, notional, fees, Position.cost]⟩
  have hgood : ∀ (s : Taped) (f : Fill), s.pos.Ok ∧ CostIdentity s → 0 < f.qty → KeepsCost s f →
      (s.fill f).pos.Ok ∧ CostIdentity (s.fill f) :=
    fun s f hs hq hk => ⟨applyFill_ok hs.1 hq, costIdentity_fill hs.1 hs.2 hq hk⟩
  exact (allStates_of_allSteps hgood hstart hfs hk).imp fun _ hs => hs.2

/-- **`run_refines_book`**: a run of fills that keep the cost is a run of the book. -/
theorem run_refines_book (symbol : String) (fs : List Fill) (hfs : ∀ f ∈ fs, 0 < f.qty)
    (hk : AllSteps Taped.fill KeepsCost (Taped.flat symbol) fs) :
    (run Taped.fill (Taped.flat symbol) fs).toBook =
      run Book.step Book.flat (fs.map fun f => (signed f.side f.qty, f.price)) := by
  have hflat : (Taped.flat symbol).toBook = Book.flat := by
    simp [Taped.toBook, Taped.flat, Position.flat, Position.cost, Position.net, fees, Book.flat]
  rw [← hflat]
  apply run_simulates
  have hstep : ∀ (s : Taped) (f : Fill), s.pos.Ok → 0 < f.qty → (s.fill f).pos.Ok :=
    fun _ _ => applyFill_ok
  have hflat_ok : (Taped.flat symbol).pos.Ok := ok_flat symbol
  exact (allSteps_congr hstep (fun s f hs hq => fill_refines_iff hs hq) hflat_ok hfs).2 hk

/-- Two long, one of them sold ten higher: the sale is averaged in as a purchase, the entry becomes
310 and the gain of 10 is not realised. -/
theorem partial_close_breaks_cost :
    let s := run Taped.fill (Taped.flat "BTCUSDT") [⟨.long, 2, 100, 0⟩, ⟨.short, 1, 110, 0⟩]
    s.pos.avgEntry = 310 ∧ s.pos.realisedPnl = 0 ∧ ¬ CostIdentity s := by decide +kernel

/-- Adding twice and flipping keeps the position at average cost. -/
theorem cost_identity_add_flip :
    let fs : List Fill := [⟨.long, 1, 100, 1⟩, ⟨.long, 1, 120, 1⟩, ⟨.short, 3, 130, 2⟩]
    AllStates Taped.fill CostIdentity (Taped.flat "BTCUSDT") fs ∧
      AllSteps Taped.fill ReducesAtAverage (Taped.flat "BTCUSDT") fs :=
  (cost_identity_iff "BTCUSDT" _ (by decide +kernel)).2 (by decide +kernel)

end Qtss.Portfolio
