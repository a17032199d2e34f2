import Mathlib.Algebra.Order.Field.Rat
import Mathlib.Order.Fin.Basic
import Qtss.ChartPatterns.ZigzagLite
/-
# What `run_series` stores (`qtss-chart-patterns/src/zigzag.rs:172-324`)

`Swings` is the state after `n` bars. Its last field says more than the newest pivot's own stretch of
bars: the pivot is not exceeded in the window of the next bar either, and this is what makes step 1
of the next bar see every bar that goes beyond it.
-/

namespace Qtss.ChartPatterns
open Scan

/-! ## The window of a bar -/

/-- A pass over the last `n` places up to `i`. -/
theorem scan_window {α : Type*} [LinearOrder α] [OrderBot α] (v : ℕ → α) {i n : ℕ} (hn : 0 < n) :
    let b := scan v i (List.range' (i - (n - 1)) (i + 1 - (i - (n - 1))))
    b.1 ≤ i ∧ i < b.1 + n ∧ b.2 = v b.1 ∧ (∀ j ≤ i, i < j + n → v j ≤ b.2)
      ∧ ((∀ j < i, i < j + n → v j < v i) → b.1 = i) := by
  intro b
  have hmem : ∀ j, j ∈ List.range' (i - (n - 1)) (i + 1 - (i - (n - 1))) ↔ j ≤ i ∧ i < j + n := by
    intro j
    rw [List.mem_range'_1]
    omega
  obtain ⟨hb, hvalue⟩ : b.1 ∈ _ ∧ b.2 = v b.1 := scan_value ((hmem i).2 (by omega))
  obtain ⟨hle, hlt⟩ := (hmem b.1).1 hb
  refine ⟨hle, hlt, hvalue, ?_, ?_⟩
  · intro j hj hjn
    exact le_scan j ((hmem j).2 ⟨hj, hjn⟩)
  · intro hlast
    have hsplit : List.range' (i - (n - 1)) (i + 1 - (i - (n - 1))) =
        List.range' (i - (n - 1)) (i - (i - (n - 1))) ++ [i] := by
      have hlen : i + 1 - (i - (n - 1)) = (i - (i - (n - 1))) + 1 := by omega
      have hend : i - (n - 1) + 1 * (i - (i - (n - 1))) = i := by omega
      rw [hlen, List.range'_concat, hend]
    have hscan : b = scan v i (List.range' (i - (n - 1)) (i - (i - (n - 1))) ++ [i]) := by
      rw [← hsplit]
    rw [hscan]
    refine scan_last fun j hj => ?_
    rw [List.mem_range'_1] at hj
    exact hlast j (by omega) (by omega)

variable {P R : Type*} [LinearOrder P] [BoundedOrder P] {highs lows : List P} {d : ℤ} {i n : ℕ}

/-- The bar's price on the side `dir`. -/
def barValue (highs lows : List P) (dir : ℤ) (j : ℕ) : P :=
  if 0 < dir then highs.getD j ⊥ else lows.getD j ⊤

@[simp] theorem barValue_sign (dir : ℤ) (j : ℕ) :
    barValue highs lows dir.sign j = barValue highs lows dir j := by
  simp [barValue]

theorem look_high (js : List ℕ) {c : PivotCandle P} {b : ℕ × P} (hback : c.highBar = i - b.1)
    (hprice : c.high = b.2) :
    (js.foldl (PivotCandle.look i highs lows) c).highBar =
        i - (js.foldl (step fun j => highs.getD j ⊥) b).1
      ∧ (js.foldl (PivotCandle.look i highs lows) c).high =
        (js.foldl (step fun j => highs.getD j ⊥) b).2 := by
  induction js generalizing c b with
  | nil => exact ⟨hback, hprice⟩
  | cons j js ih =>
    rw [List.foldl_cons, List.foldl_cons]
    apply ih
    · unfold PivotCandle.look step
      simp only [hprice, gt_iff_lt]
      split_ifs <;> simp [hback]
    · unfold PivotCandle.look step
      simp only [hprice, gt_iff_lt]
      split_ifs <;> simp [hprice]

theorem look_low (js : List ℕ) {c : PivotCandle P} {b : ℕ × Pᵒᵈ} (hback : c.lowBar = i - b.1)
    (hprice : OrderDual.toDual c.low = b.2) :
    (js.foldl (PivotCandle.look i highs lows) c).lowBar =
        i - (js.foldl (step fun j => OrderDual.toDual (lows.getD j ⊤)) b).1
      ∧ OrderDual.toDual (js.foldl (PivotCandle.look i highs lows) c).low =
        (js.foldl (step fun j => OrderDual.toDual (lows.getD j ⊤)) b).2 := by
  induction js generalizing c b with
  | nil => exact ⟨hback, hprice⟩
  | cons j js ih =>
    rw [List.foldl_cons, List.foldl_cons]
    apply ih
    · unfold PivotCandle.look step
      simp only [← hprice, OrderDual.toDual_lt_toDual]
      split_ifs <;> simp [hback]
    · unfold PivotCandle.look step
      simp only [← hprice, OrderDual.toDual_lt_toDual]
      split_ifs <;> first | rfl | exact hprice

/-- **The pivot candle**: the place and the price of the window's extreme on the side `d`; a bar
beyond the rest of its window is its extreme. -/
structure PivotCandle.Spec (highs lows : List P) (n i : ℕ) (d : ℤ) (c : PivotCandle P) : Prop where
  back_le : c.back d ≤ i
  back_lt : c.back d < n
  price : c.price d = barValue highs lows d (i - c.back d)
  extreme : ∀ j ≤ i, i < j + n → beyond d (barValue highs lows d j) (c.price d) = false
  here : (∀ j < i, i < j + n →
    beyond d (barValue highs lows d i) (barValue highs lows d j) = true) → c.back d = 0

/-- A pass that compares as `beyond d` does ends at the extreme of the side `d`. -/
theorem spec_of_scan {α : Type*} [LinearOrder α] [OrderBot α] (φ : P → α) (hφ : φ.Injective)
    (hbeyond : ∀ a b, beyond d a b = true ↔ φ b < φ a) {c : PivotCandle P} (hn : 0 < n)
    {b : ℕ × α} (hb : scan (fun j => φ (barValue highs lows d j)) i
      (List.range' (i - (n - 1)) (i + 1 - (i - (n - 1)))) = b)
    (hc : c.back d = i - b.1 ∧ φ (c.price d) = b.2) : c.Spec highs lows n i d := by
  obtain ⟨hback, hprice⟩ := hc
  obtain ⟨hle, hlt, hvalue, hext, hhere⟩ :=
    scan_window (fun j => φ (barValue highs lows d j)) (i := i) hn
  rw [hb] at hle hlt hvalue hext hhere
  refine ⟨?_, ?_, ?_, ?_, ?_⟩
  · omega
  · omega
  · have hplace := (congrArg (i - ·) hback).trans (Nat.sub_sub_self hle)
    apply hφ
    rw [hprice, hvalue]
    simp only [hplace]
  · intro j hj hjn
    rw [← Bool.not_eq_true, hbeyond, hprice, not_lt]
    exact hext j hj hjn
  · intro hall
    have hplace := hhere fun j hj hjn => (hbeyond _ _).1 (hall j hj hjn)
    omega

theorem candle_spec (hn : 0 < n) (hd : d ≠ 0) :
    (pivotCandle n i highs lows).Spec highs lows n i d := by
  have hmax : max n 1 = n := by omega
  rcases lt_or_gt_of_ne hd with hd | hd
  · have hside : ¬ 0 < d := not_lt.2 hd.le
    refine spec_of_scan OrderDual.toDual OrderDual.toDual.injective ?_ hn rfl ?_
    · intro a b
      rw [beyond_neg hd, decide_eq_true_eq, OrderDual.toDual_lt_toDual]
    · simp only [PivotCandle.back, PivotCandle.price, barValue, if_neg hside, pivotCandle, hmax]
      exact look_low _ (by simp) (by simp)
  · refine spec_of_scan id Function.injective_id ?_ hn rfl ?_
    · intro a b
      rw [beyond_pos hd, decide_eq_true_eq, id, id]
    · simp only [PivotCandle.back, PivotCandle.price, barValue, if_pos hd, pivotCandle, hmax, id]
      exact look_high _ (by simp) (by simp)

/-! ## The state after `n` bars -/

/-- Of two adjacent pivots the peak is no lower than the trough. -/
def InOrder (a b : ZigzagPivot P R) : Prop :=
  (0 < a.dir → b.point.price ≤ a.point.price) ∧ (0 < b.dir → a.point.price ≤ b.point.price)

/-- The pivot is a bar's price, and no bar since, nor in the window of bar `n`, is beyond it. -/
def Leads (highs lows : List P) (offset length n : ℕ) (p : ZigzagPivot P R) : Prop :=
  ∃ r < n, p.point.index = (r : ℤ) - offset ∧ p.point.price = barValue highs lows p.dir r
    ∧ ∀ j < n, r ≤ j ∨ n < j + length →
      beyond p.dir (barValue highs lows p.dir j) p.point.price = false

structure Swings (highs lows : List P) (n : ℕ) (z : ZigzagLite P R) : Prop where
  chained : Chained z.pivots
  inOrder : z.pivots.IsChain InOrder
  size : z.pivots.length ≤ z.numberOfPivots
  full : z.pivots ≠ [] → z.length ≤ n
  leads : ∀ p ∈ z.pivots.head?, Leads highs lows z.offset z.length n p

/-- The parameters of `new`. -/
def SameSettings (z z' : ZigzagLite P R) : Prop :=
  z'.length = z.length ∧ z'.numberOfPivots = z.numberOfPivots ∧ z'.offset = z.offset

variable {f : Ratios P R} {z : ZigzagLite P R} {p q p' q' : ZigzagPivot P R} {timesMs : List ℤ}

omit [BoundedOrder P] in
theorem pos_iff_of_sign {a b : ℤ} (h : a.sign = b.sign) : 0 < a ↔ 0 < b := by
  rw [← Int.sign_eq_one_iff_pos, h, Int.sign_eq_one_iff_pos]

omit [BoundedOrder P] in
theorem Carries.inOrder (hp : Carries p' p) (hq : Carries q' q) (h : InOrder p q) : InOrder p' q' := by
  unfold InOrder
  rw [pos_iff_of_sign hp.2, pos_iff_of_sign hq.2, hp.1, hq.1]
  exact h

theorem Carries.leads {offset length : ℕ} (hp : Carries p' p)
    (h : Leads highs lows offset length n p) : Leads highs lows offset length n p' := by
  obtain ⟨r, hr, hindex, hprice, hall⟩ := h
  have hvalue : ∀ j, barValue highs lows p'.dir j = barValue highs lows p.dir j := by
    intro j
    rw [← barValue_sign, hp.2, barValue_sign]
  have hbeyond : ∀ a b : P, beyond p'.dir a b = beyond p.dir a b := by
    intro a b
    rw [← beyond_sign, hp.2, beyond_sign]
  refine ⟨r, hr, ?_, ?_, ?_⟩
  · rw [hp.1, hindex]
  · rw [hp.1, hprice, hvalue]
  · intro j hj hor
    rw [hbeyond, hvalue, hp.1]
    exact hall j hj hor

/-- **Placing a pivot** that leads after `n` bars. -/
theorem place (hz : Chained z.pivots) (hord : z.pivots.IsChain InOrder) (hfull : z.length ≤ n)
    (hp : p.dir ≠ 0) (hfol : ∀ q ∈ z.pivots.head?, Follows p q ∧ InOrder p q)
    (hlead : Leads highs lows z.offset z.length n p) :
    Swings highs lows n (z.addNewPivot f p) ∧ (z.addNewPivot f p).flags.newPivot = true
      ∧ SameSettings z (z.addNewPivot f p)
      ∧ ∃ p', (z.addNewPivot f p).pivots.head? = some p' ∧ Carries p' p := by
  obtain ⟨p', hcar, hadd, hchain⟩ :=
    addNewPivot_of_follows (f := f) hz hp fun q hq => (hfol q hq).1
  have hhead : (z.pushFront p').pivots.head? = some p' := head_pushFront z p'
  rw [hadd]
  refine ⟨⟨hchain.pushFront, ?_, ?_, fun _ => hfull, ?_⟩, rfl, ⟨rfl, rfl, rfl⟩, ?_⟩
  · have hcons : (p' :: z.pivots).IsChain InOrder := by
      refine List.isChain_cons.2 ⟨?_, hord⟩
      intro q hq
      exact hcar.inOrder (Carries.refl q) (hfol q hq).2
    exact hcons.infix (List.take_prefix _ _).isInfix
  · simp [ZigzagLite.pushFront]
  · intro q hq
    rw [hhead] at hq
    obtain rfl := Option.some.inj hq
    exact hcar.leads hlead
  · exact ⟨p', hhead, hcar⟩

/-- The candle's own pivot leads: its price is the extreme of the whole window. -/
theorem leads_candle {c : PivotCandle P} (hc : c.Spec highs lows z.length n d) :
    Leads highs lows z.offset z.length (n + 1) (c.pivot f ((n : ℤ) - z.offset) n timesMs d) := by
  have hle := hc.back_le
  have hlt := hc.back_lt
  refine ⟨n - c.back d, by omega, ?_, hc.price, ?_⟩
  · simp only [PivotCandle.pivot, ZigzagPivot.new]
    omega
  · intro j hj hor
    exact hc.extreme j (by omega) (by omega)

/-! ## The three steps of a bar -/

variable {c : PivotCandle P} {last : ZigzagPivot P R} {rest : List (ZigzagPivot P R)}

omit [BoundedOrder P] in
theorem Swings.head_signed [BoundedOrder P] (hz : Swings highs lows n z)
    (hlast : z.pivots.head? = some last) : last.dir ≠ 0 :=
  hz.chained.signed last (List.mem_of_mem_head? hlast)

/-- The opposite extreme of a window that does not begin before the newest pivot. -/
theorem place_opposite (hz : Swings highs lows (n + 1) z) (hlast : z.pivots.head? = some last)
    (hbars : ∀ r ≤ n, barValue highs lows (-1) r ≤ barValue highs lows 1 r)
    (hc : c.Spec highs lows z.length n (-last.dir.sign))
    (hafter : last.point.index ≤ (n : ℤ) - z.offset - c.back (-last.dir.sign)) :
    let z' := z.addNewPivot f (c.pivot f ((n : ℤ) - z.offset) n timesMs (-last.dir.sign))
    Swings highs lows (n + 1) z' ∧ z'.flags.newPivot = true ∧ SameSettings z z' := by
  have hsigned : last.dir.sign ≠ 0 := by simpa using hz.head_signed hlast
  have hfull := hz.full (List.ne_nil_of_mem (List.mem_of_mem_head? hlast))
  obtain ⟨r, hr, hindex, hprice, hlead⟩ := hz.leads last hlast
  have hback := hc.back_le
  have hr' : r ≤ n - c.back (-last.dir.sign) := by omega
  -- the bar of the new pivot does not go beyond the last one
  have hinside := hlead (n - c.back (-last.dir.sign)) (by omega) (.inl hr')
  have hrange := hbars (n - c.back (-last.dir.sign)) (by omega)
  have hcprice := hc.price
  have hplace :=
    place (f := f) (p := c.pivot f ((n : ℤ) - z.offset) n timesMs (-last.dir.sign)) hz.chained
      hz.inOrder hfull (by simpa [PivotCandle.pivot, ZigzagPivot.new] using hsigned) ?_
      (leads_candle hc)
  · exact ⟨hplace.1, hplace.2.1, hplace.2.2.1⟩
  · intro q hq
    rw [hlast] at hq
    obtain rfl := Option.some.inj hq
    refine ⟨⟨by simp [PivotCandle.pivot, ZigzagPivot.new], ?_⟩, ?_⟩
    · simpa [PivotCandle.pivot, ZigzagPivot.new] using hafter
    · rcases lt_or_gt_of_ne (hz.head_signed hlast) with hd | hd
      · rw [Int.sign_eq_neg_one_iff_neg.2 hd, neg_neg] at hcprice hinside hrange ⊢
        rw [beyond_neg hd, decide_eq_false_iff_not, not_lt] at hinside
        have hlow : barValue highs lows last.dir (n - c.back 1) =
            barValue highs lows (-1) (n - c.back 1) := by
          rw [← barValue_sign, Int.sign_eq_neg_one_iff_neg.2 hd]
        rw [hlow] at hinside
        refine ⟨fun _ => ?_, fun h => absurd h (not_lt.2 hd.le)⟩
        simp only [PivotCandle.pivot, ZigzagPivot.new, hcprice]
        exact hinside.trans hrange
      · rw [Int.sign_eq_one_iff_pos.2 hd] at hcprice hinside hrange ⊢
        rw [beyond_pos hd, decide_eq_false_iff_not, not_lt] at hinside
        have hhigh : barValue highs lows last.dir (n - c.back (-1)) =
            barValue highs lows 1 (n - c.back (-1)) := by
          rw [← barValue_sign, Int.sign_eq_one_iff_pos.2 hd]
        rw [hhigh] at hinside
        refine ⟨fun h => absurd h (not_lt.2 (by decide : (-1 : ℤ) ≤ 0)), fun _ => ?_⟩
        simp only [PivotCandle.pivot, ZigzagPivot.new, hcprice]
        exact hrange.trans hinside

/-- A bar beyond the newest pivot is the extreme of its window. -/
theorem back_of_beyond (hlead : Leads highs lows z.offset z.length n last)
    (hc : c.Spec highs lows z.length n last.dir)
    (hb : beyond last.dir (barValue highs lows last.dir n) last.point.price = true) :
    c.back last.dir = 0 := by
  obtain ⟨r, -, -, -, hall⟩ := hlead
  refine hc.here fun j hj hjn => ?_
  by_contra hnot
  have hj' := beyond_trans (Bool.eq_false_iff.2 hnot) (hall j hj (.inr hjn))
  rw [hb] at hj'
  exact Bool.false_ne_true hj'.symm

omit [BoundedOrder P] in
/-- A pivot that is no less extreme can take the place of the last one. -/
theorem InOrder.replace (h : InOrder last q) (hsign : p.dir.sign = last.dir.sign)
    (hopp : last.dir.sign = -q.dir.sign)
    (hprice : beyond last.dir last.point.price p.point.price = false) : InOrder p q := by
  have hp := pos_iff_of_sign hsign
  refine ⟨fun hpos => ?_, fun hpos => ?_⟩
  · have hlast := hp.1 hpos
    rw [beyond_pos hlast, decide_eq_false_iff_not, not_lt] at hprice
    exact (h.1 hlast).trans hprice
  · have hlast : last.dir < 0 := by
      rw [← Int.sign_eq_neg_one_iff_neg, hopp, Int.sign_eq_one_iff_pos.2 hpos]
    rw [beyond_neg hlast, decide_eq_false_iff_not, not_lt] at hprice
    exact hprice.trans (h.2 hpos)

/-- **Step 1**: afterwards the newest pivot leads up to this bar. -/
theorem swings_updateLast (hz : Swings highs lows n z) (hpiv : z.pivots = last :: rest)
    (hc : ∀ d ≠ 0, c.Spec highs lows z.length n d) :
    let z' := z.updateLast f c ((n : ℤ) - z.offset) n timesMs last.dir.sign
    Swings highs lows (n + 1) z' ∧ SameSettings z z' ∧ (z' = z ∨ z'.flags.newPivot = true)
      ∧ ∃ p, z'.pivots.head? = some p ∧ p.dir.sign = last.dir.sign := by
  have hhead : z.pivots.head? = some last := by rw [hpiv, List.head?_cons]
  have hsigned := hz.head_signed hhead
  have hfull := hz.full (by simp [hpiv])
  have hspec := hc last.dir.sign (by simpa using hsigned)
  have hprice := hspec.price
  obtain ⟨r, hr, hindex, hlprice, hlead⟩ := hz.leads last hhead
  intro z'
  by_cases hfire :
      (c.back last.dir.sign = 0 && !beyond last.dir last.point.price (c.price last.dir.sign)) = true
  · have hz' : z' = { z with flags := { z.flags with updateLastPivot := true }, pivots := rest }.addNewPivot
        f (c.pivot f ((n : ℤ) - z.offset) n timesMs last.dir.sign) := by
      simp only [Bool.and_eq_true, decide_eq_true_eq] at hfire
      simp only [z', ZigzagLite.updateLast, hpiv, PivotCandle.pivot, hfire]
      simp
    simp only [Bool.and_eq_true, decide_eq_true_eq, Bool.not_eq_true'] at hfire
    have hchained := hz.chained
    have hord := hz.inOrder
    rw [hpiv] at hchained hord
    have hplace := place (f := f)
      (z := { z with flags := { z.flags with updateLastPivot := true }, pivots := rest })
      (p := c.pivot f ((n : ℤ) - z.offset) n timesMs last.dir.sign) hchained.tail
      (List.isChain_cons.1 hord).2 (n := n + 1) (hfull.trans (Nat.le_succ n))
      (by simpa [PivotCandle.pivot, ZigzagPivot.new] using hsigned) ?_ (leads_candle hspec)
    · obtain ⟨hswings, hnew, hsame, p', hp', hcar⟩ := hplace
      rw [← hz'] at hswings hnew hsame hp'
      refine ⟨hswings, hsame, .inr hnew, p', hp', ?_⟩
      rw [hcar.2]
      simp [PivotCandle.pivot, ZigzagPivot.new]
    · intro q hq
      obtain ⟨hside, hbefore⟩ := (List.isChain_cons.1 hchained.follows).1 q hq
      refine ⟨⟨?_, ?_⟩, ((List.isChain_cons.1 hord).1 q hq).replace ?_ hside hfire.2⟩
      · simpa [PivotCandle.pivot, ZigzagPivot.new] using hside
      · simp only [PivotCandle.pivot, ZigzagPivot.new, hfire.1]
        omega
      · simp [PivotCandle.pivot, ZigzagPivot.new]
  · have hz' : z' = z := by
      simp only [z', ZigzagLite.updateLast, hpiv, if_neg hfire]
    rw [hz']
    refine ⟨⟨hz.chained, hz.inOrder, hz.size, fun h => (hz.full h).trans (Nat.le_succ n), ?_⟩,
      ⟨rfl, rfl, rfl⟩, .inl rfl, last, hhead, rfl⟩
    intro q hq
    rw [hhead] at hq
    obtain rfl := Option.some.inj hq
    refine ⟨r, hr.trans (Nat.lt_succ_self n), hindex, hlprice, ?_⟩
    intro j hj hor
    rcases Nat.lt_succ_iff_lt_or_eq.1 hj with hj | rfl
    · exact hlead j hj (by omega)
    · by_contra hb
      rw [Bool.not_eq_false] at hb
      have hback := back_of_beyond ⟨r, hr, hindex, hlprice, hlead⟩ (hc last.dir hsigned) hb
      have hback' : c.back last.dir.sign = 0 := by simpa [PivotCandle.back] using hback
      rw [hback', Nat.sub_zero, barValue_sign] at hprice
      refine hfire ?_
      rw [hback', hprice, beyond_asymm hb]
      rfl

/-- **Step 2** leaves the pivots alone or places the opposite one at this bar. -/
theorem swings_addOpposite (hz : Swings highs lows (n + 1) z) (hlast : z.pivots.head? = some last)
    (hbars : ∀ r ≤ n, barValue highs lows (-1) r ≤ barValue highs lows 1 r)
    (hc : c.Spec highs lows z.length n (-last.dir.sign)) (timesMs : List ℤ) (force : Bool) :
    let z' := z.addOpposite f c ((n : ℤ) - z.offset) n timesMs last.dir.sign force
    Swings highs lows (n + 1) z' ∧ SameSettings z z' ∧ (z' = z ∨ z'.flags.newPivot = true) := by
  intro z'
  by_cases hfire : ((!z.flags.newPivot || force) && c.back (-last.dir.sign) = 0) = true
  · have hz' : z' = z.addNewPivot f
        (c.pivot f ((n : ℤ) - z.offset) n timesMs (-last.dir.sign)) := if_pos hfire
    simp only [Bool.and_eq_true, decide_eq_true_eq] at hfire
    obtain ⟨r, hr, hindex, -, -⟩ := hz.leads last hlast
    obtain ⟨hswings, hnew, hsame⟩ :=
      place_opposite (f := f) hz hlast hbars hc (by omega)
    rw [hz']
    exact ⟨hswings, hsame, .inr hnew⟩
  · have hz' : z' = z := if_neg hfire
    rw [hz']
    exact ⟨hz, ⟨rfl, rfl, rfl⟩, .inl rfl⟩

/-- **Step 3** places its pivot after the newest one: that one is older than the window. -/
theorem swings_addOverflow (hz : Swings highs lows (n + 1) z) (hlast : z.pivots.head? = some last)
    (hbars : ∀ r ≤ n, barValue highs lows (-1) r ≤ barValue highs lows 1 r)
    (hc : c.Spec highs lows z.length n (-last.dir.sign))
    (hover : (n : ℤ) - z.offset - last.point.index ≥ z.length) :
    let z' := z.addNewPivot f (c.pivot f ((n : ℤ) - z.offset) n timesMs (-last.dir.sign))
    Swings highs lows (n + 1) z' ∧ SameSettings z z' := by
  have hlt := hc.back_lt
  obtain ⟨hswings, -, hsame⟩ :=
    place_opposite (f := f) hz hlast hbars hc (by omega)
  exact ⟨hswings, hsame⟩

theorem lastTrendDir_eq {dir : ℤ} (h : dir ≠ 0) : lastTrendDir dir = dir.sign := by
  unfold lastTrendDir
  rcases lt_or_gt_of_ne h with hd | hd
  · rw [if_neg (not_lt.2 hd.le), Int.sign_eq_neg_one_iff_neg.2 hd]
  · rw [if_pos hd, Int.sign_eq_one_iff_pos.2 hd]

/-- The first pivot. -/
theorem swings_first (hz : Swings highs lows n z) (hpiv : z.pivots = []) (hfull : z.length ≤ n + 1)
    (hd : d ≠ 0) (hc : c.Spec highs lows z.length n d) (hback : c.back d = 0) :
    let z' := z.addNewPivot f (.new f ⟨(n : ℤ) - z.offset, c.price d, timesMs.getD n 0⟩ d)
    Swings highs lows (n + 1) z' ∧ SameSettings z z' := by
  have hpivot : ZigzagPivot.new f ⟨(n : ℤ) - z.offset, c.price d, timesMs.getD n 0⟩ d =
      c.pivot f ((n : ℤ) - z.offset) n timesMs d := by
    simp [PivotCandle.pivot, hback]
  obtain ⟨hswings, -, hsame, -⟩ :=
    place (f := f) (p := c.pivot f ((n : ℤ) - z.offset) n timesMs d) hz.chained hz.inOrder hfull
      (by simpa [PivotCandle.pivot, ZigzagPivot.new] using hd) (by simp [hpiv]) (leads_candle hc)
  rw [hpivot]
  exact ⟨hswings, hsame⟩

/-- Nothing has been placed before the first full window, so nothing has to be shown of it. -/
theorem swings_of_nil (hz : Swings highs lows n z) (hpiv : z.pivots = []) (m : ℕ) :
    Swings highs lows m z where
  chained := hz.chained
  inOrder := hz.inOrder
  size := hz.size
  full h := absurd hpiv h
  leads p hp := by simp [hpiv] at hp

/-- **The body of `calculate_bar`**, on a full window and with cleared flags. -/
theorem swings_stepBar (hz : Swings highs lows n z) (hfull : z.length ≤ n + 1)
    (hbars : ∀ r ≤ n, barValue highs lows (-1) r ≤ barValue highs lows 1 r)
    (hc : ∀ d ≠ 0, c.Spec highs lows z.length n d) :
    let z' := z.stepBar f c ((n : ℤ) - z.offset) n timesMs
    Swings highs lows (n + 1) z' ∧ SameSettings z z' := by
  intro z'
  rcases hpiv : z.pivots with _ | ⟨last, rest⟩
  · by_cases hup : c.back 1 = 0
    · have hz' : z' = z.addNewPivot f
          (.new f ⟨(n : ℤ) - z.offset, c.price 1, timesMs.getD n 0⟩ 1) := by
        simp only [z', ZigzagLite.stepBar, hpiv, if_pos hup]
      rw [hz']
      exact swings_first hz hpiv hfull (by decide) (hc 1 (by decide)) hup
    · by_cases hdown : c.back (-1) = 0
      · have hz' : z' = z.addNewPivot f
            (.new f ⟨(n : ℤ) - z.offset, c.price (-1), timesMs.getD n 0⟩ (-1)) := by
          simp only [z', ZigzagLite.stepBar, hpiv, if_neg hup, if_pos hdown]
        rw [hz']
        exact swings_first hz hpiv hfull (by decide) (hc (-1) (by decide)) hdown
      · have hz' : z' = z := by
          simp only [z', ZigzagLite.stepBar, hpiv, if_neg hup, if_neg hdown]
        rw [hz']
        exact ⟨swings_of_nil hz hpiv (n + 1), rfl, rfl, rfl⟩
  · have hsigned : last.dir ≠ 0 := hz.head_signed (by rw [hpiv, List.head?_cons])
    have hopp : -last.dir.sign ≠ 0 := by simpa using hsigned
    obtain ⟨z₁, hz₁⟩ : ∃ z₁, z.updateLast f c ((n : ℤ) - z.offset) n timesMs last.dir.sign = z₁ :=
      ⟨_, rfl⟩
    obtain ⟨h₁, hset₁, hor₁, p, hp, hsign⟩ : Swings highs lows (n + 1) z₁ ∧ SameSettings z z₁
        ∧ (z₁ = z ∨ z₁.flags.newPivot = true)
        ∧ ∃ p, z₁.pivots.head? = some p ∧ p.dir.sign = last.dir.sign := by
      rw [← hz₁]
      exact swings_updateLast hz hpiv hc
    obtain ⟨z₂, hz₂⟩ : ∃ z₂, z₁.addOpposite f c ((n : ℤ) - z.offset) n timesMs last.dir.sign
        (forceDouble c last.dir.sign z.pivots) = z₂ := ⟨_, rfl⟩
    obtain ⟨h₂, hset₂, hor₂⟩ : Swings highs lows (n + 1) z₂ ∧ SameSettings z₁ z₂
        ∧ (z₂ = z₁ ∨ z₂.flags.newPivot = true) := by
      have hstep := swings_addOpposite (f := f) (c := c) h₁ hp hbars
        (by rw [hsign, hset₁.1]; exact hc _ hopp) timesMs (forceDouble c last.dir.sign z.pivots)
      rw [hsign, hset₁.2.2, hz₂] at hstep
      exact hstep
    have hset : SameSettings z z₂ :=
      ⟨hset₂.1.trans hset₁.1, hset₂.2.1.trans hset₁.2.1, hset₂.2.2.trans hset₁.2.2⟩
    have hz' : z' = z₂.addOverflow f c ((n : ℤ) - z.offset) n timesMs last.dir.sign
        (decide ((n : ℤ) - z.offset - last.point.index ≥ z.length)) := by
      simp only [z', ZigzagLite.stepBar, hpiv, lastTrendDir_eq hsigned, hz₁]
      rw [← hpiv, hz₂]
    by_cases hover : (decide ((n : ℤ) - z.offset - last.point.index ≥ z.length) && !z₂.flags.newPivot)
        = true
    · rw [hz', ZigzagLite.addOverflow, if_pos hover]
      simp only [Bool.and_eq_true, decide_eq_true_eq, Bool.not_eq_true'] at hover
      -- no step has placed a pivot, so the newest one is still `last`
      have hz₂₁ : z₂ = z₁ := hor₂.resolve_right (by simp [hover.2])
      have hz₁₀ : z₁ = z := hor₁.resolve_right (by simp [← hz₂₁, hover.2])
      have hz₂₀ : z₂ = z := hz₂₁.trans hz₁₀
      rw [hz₂₀] at h₂ ⊢
      exact swings_addOverflow h₂ (by rw [hpiv, List.head?_cons]) hbars (hc _ hopp) hover.1
    · rw [hz', ZigzagLite.addOverflow, if_neg hover]
      exact ⟨h₂, hset⟩

/-- **One bar** of the series. -/
theorem swings_calculateBar (hz : Swings highs lows n z) (hhigh : n < highs.length)
    (hlow : n < lows.length)
    (hbars : ∀ r ≤ n, barValue highs lows (-1) r ≤ barValue highs lows 1 r) :
    Swings highs lows (n + 1) (z.calculateBar f n timesMs n highs lows)
      ∧ SameSettings z (z.calculateBar f n timesMs n highs lows) := by
  have hclear : Swings highs lows n z.clearFlags :=
    ⟨hz.chained, hz.inOrder, hz.size, hz.full, hz.leads⟩
  have hrange : ¬ (highs.length ≤ n ∨ lows.length ≤ n) := by omega
  unfold ZigzagLite.calculateBar
  simp only [if_neg hrange]
  by_cases hfull : n + 1 < z.clearFlags.length
  · rw [if_pos hfull]
    have hpiv : z.clearFlags.pivots = [] := by
      by_contra hne
      have := hclear.full hne
      omega
    exact ⟨swings_of_nil hclear hpiv (n + 1), rfl, rfl, rfl⟩
  · rw [if_neg hfull]
    exact swings_stepBar hclear (by omega) hbars
      fun d hd => candle_spec z.clearFlags.length_pos hd

/-! ## The series -/

theorem barValue_le (hbars : ∀ p ∈ highs.zip lows, p.2 ≤ p.1) (hhigh : n < highs.length)
    (hlow : n < lows.length) : barValue highs lows (-1) n ≤ barValue highs lows 1 n := by
  have hmem : (highs[n], lows[n]) ∈ highs.zip lows := by
    rw [List.mem_iff_getElem]
    exact ⟨n, by simp; omega, by simp⟩
  simpa [barValue, List.getD_eq_getElem?_getD, hhigh, hlow] using hbars _ hmem

theorem swings_runBars (f : Ratios P R) (timesMs : List ℤ) (length maxPivots offset : ℕ)
    (hbars : ∀ p ∈ highs.zip lows, p.2 ≤ p.1) (hhigh : n ≤ highs.length) (hlow : n ≤ lows.length) :
    Swings highs lows n (runBars f timesMs highs lows length maxPivots offset n)
      ∧ SameSettings (.new length maxPivots offset)
          (runBars f timesMs highs lows length maxPivots offset n) := by
  induction n with
  | zero =>
    refine ⟨⟨chained_nil, List.isChain_nil, by simp [runBars, ZigzagLite.new], ?_, ?_⟩, rfl, rfl, rfl⟩
    · intro h
      exact absurd rfl h
    · intro p hp
      simp [runBars, ZigzagLite.new] at hp
  | succ n ih =>
    obtain ⟨hswings, hl, hn, ho⟩ := ih (by omega) (by omega)
    have hrun : runBars f timesMs highs lows length maxPivots offset (n + 1) =
        (runBars f timesMs highs lows length maxPivots offset n).calculateBar f n timesMs n highs
          lows := by
      rw [runBars, List.range_succ, List.foldl_concat, ← runBars]
    obtain ⟨hstep, hl', hn', ho'⟩ := swings_calculateBar (f := f) hswings
      (by omega) (by omega) fun r hr => barValue_le hbars (by omega) (by omega)
    rw [hrun]
    exact ⟨hstep, hl'.trans hl, hn'.trans hn, ho'.trans ho⟩

/-- The ratios as exact quotients. -/
def exactRatios : Ratios (Fin 32) ℚ where
  zero := 0
  prices a b c d := |(a.val : ℚ) - b.val| / max |(c.val : ℚ) - d.val| (1 / 10 ^ 15)
  bars m n := m / n

/-- Two swings, and a last bar beyond everything on both sides. -/
def swingHighs : List (Fin 32) := [11, 13, 15, 12, 9, 14, 17, 13, 11, 20]
def swingLows : List (Fin 32) := [10, 12, 14, 11, 7, 12, 16, 12, 10, 5]

def swingSeries : ZigzagLite (Fin 32) ℚ :=
  runSeries exactRatios [] swingHighs swingLows 2 16 0

end Qtss.ChartPatterns
