import Mathlib.Data.List.Infix
import Mathlib.Data.Int.Order.Basic
import Mathlib.Order.OrderDual
import Mathlib.Algebra.Order.Group.Unbundled.Int
import Mathlib.Data.List.Chain
import Qtss.Lib.Scan
/-
# `ZigzagLite` (`qtss-chart-patterns/src/zigzag.rs`)

| here | there |
| --- | --- |
| `ChartPoint`, `ZigzagPivot`, `ZigzagFlags`, `ZigzagLite` | zigzag.rs:28, :36, :60, :68; the newest pivot is the first of the list |
| `Ratios`           | the arithmetic of the three ratio fields (`snap_ratio`, :13, :121-128), which nothing here reads |
| `beyond`           | `dir * a > dir * b`, the one way in which prices are compared |
| `addNewPivot`      | :96 |
| `pivotCandle`      | :140; `⊥` and `⊤` are the infinities it starts from |
| `calculateBar`, `stepBar`, `updateLast`, `addOpposite`, `addOverflow` | :172, its body past the guards, its three steps |
| `runSeries`        | :318 |

Prices are of any linear order with a least and a greatest value. Indices are not bounded. The two
sides of each step are one definition over the direction: `back 1` is `p_high_bar`, `back (-1)` is
`p_low_bar`, and so on.

What carries `runSeries_swings` is that the windows nest. When a pivot is placed it is the extreme of a
whole window; a later window reaches back no further, so a bar beyond the pivot is also the extreme
of its own window, and step 1 moves the pivot there.
-/

namespace Qtss.ChartPatterns
open Scan

structure ChartPoint (P : Type*) where
  index : ℤ
  price : P
  timeMs : ℤ
deriving DecidableEq

structure ZigzagPivot (P R : Type*) where
  point : ChartPoint P
  /-- Above 0 a peak, below 0 a trough; `±2` beyond the pivot before the last. -/
  dir : ℤ
  level : ℤ
  ratio : R
  barRatio : R
  sizeRatio : R
deriving DecidableEq

structure ZigzagFlags where
  newPivot : Bool
  doublePivot : Bool
  updateLastPivot : Bool
deriving DecidableEq

structure ZigzagLite (P R : Type*) where
  length : ℕ
  numberOfPivots : ℕ
  offset : ℕ
  level : ℤ
  /-- Newest first. -/
  pivots : List (ZigzagPivot P R)
  flags : ZigzagFlags
  length_pos : 0 < length
  numberOfPivots_pos : 0 < numberOfPivots

/-- `zero` is `0.0`; `prices a b c d` is the snapped `|a - b| / |c - d|` and `bars m n` the snapped
`m / n`. -/
structure Ratios (P R : Type*) where
  zero : R
  prices : P → P → P → P → R
  bars : ℤ → ℤ → R

variable {P R : Type*}

def ZigzagFlags.cleared : ZigzagFlags := ⟨false, false, false⟩

def ZigzagPivot.new (f : Ratios P R) (point : ChartPoint P) (dir : ℤ) : ZigzagPivot P R :=
  ⟨point, dir, 0, f.zero, f.zero, f.zero⟩

theorem max_one_pos (n : ℕ) : 0 < max n 1 := by omega

def ZigzagLite.new (length numberOfPivots offset : ℕ) : ZigzagLite P R :=
  ⟨max length 1, max numberOfPivots 1, offset, 0, [], .cleared, max_one_pos length,
    max_one_pos numberOfPivots⟩

/-- `unshift` and the bound on the size. -/
def ZigzagLite.pushFront (z : ZigzagLite P R) (pivot : ZigzagPivot P R) : ZigzagLite P R :=
  { z with
    pivots := (pivot :: z.pivots).take z.numberOfPivots
    flags := { z.flags with newPivot := true } }

section order
variable [LinearOrder P]

/-- `dir * a > dir * b`. -/
def beyond (dir : ℤ) (a b : P) : Bool :=
  if 0 < dir then decide (b < a) else if dir < 0 then decide (a < b) else false

/-- zigzag.rs:113-130: the pivot with its doubled direction and its ratios. -/
def ZigzagPivot.measured (f : Ratios P R) (pivot last llast : ZigzagPivot P R)
    (older : List (ZigzagPivot P R)) : ZigzagPivot P R :=
  let dir := pivot.dir.sign
  let value := pivot.point.price
  let doubled := beyond dir value llast.point.price
  { pivot with
    dir := if doubled then dir * 2 else dir
    ratio := f.prices value last.point.price last.point.price llast.point.price
    barRatio := f.bars |last.point.index - pivot.point.index|
      (max |llast.point.index - last.point.index| 1)
    sizeRatio := match older with
      | [] => pivot.sizeRatio
      | lllast :: _ =>
        f.prices last.point.price value llast.point.price lllast.point.price }

/-- zigzag.rs:96. -/
def ZigzagLite.addNewPivot (f : Ratios P R) (z : ZigzagLite P R) (pivot : ZigzagPivot P R) :
    ZigzagLite P R :=
  let incomingSign := pivot.dir.sign
  if incomingSign = 0 then z
  else
    match z.pivots with
    | [] => z.pushFront pivot
    | [last] => if last.dir.sign = incomingSign then z else z.pushFront pivot
    | last :: llast :: older =>
      if last.dir.sign = incomingSign then z
      else z.pushFront (pivot.measured f last llast older)

end order

/-! ## One bar -/

structure PivotCandle (P : Type*) where
  highBar : ℕ
  lowBar : ℕ
  high : P
  low : P
deriving DecidableEq

def PivotCandle.back (c : PivotCandle P) (dir : ℤ) : ℕ := if 0 < dir then c.highBar else c.lowBar

def PivotCandle.price (c : PivotCandle P) (dir : ℤ) : P := if 0 < dir then c.high else c.low

/-- The pivot of the window's extreme on the side `dir`. -/
def PivotCandle.pivot (c : PivotCandle P) (f : Ratios P R) (newBar : ℤ) (idx : ℕ)
    (timesMs : List ℤ) (dir : ℤ) : ZigzagPivot P R :=
  .new f ⟨newBar - c.back dir, c.price dir, timesMs.getD (idx - c.back dir) 0⟩ dir

def lastTrendDir (lastDir : ℤ) : ℤ := if lastDir > 0 then 1 else -1

section bar
variable [LinearOrder P] [BoundedOrder P]

/-- zigzag.rs:148-159, for one bar of the window. -/
def PivotCandle.look (i : ℕ) (highs lows : List P) (c : PivotCandle P) (j : ℕ) : PivotCandle P :=
  let h := highs.getD j ⊥
  let c := if h > c.high then { c with high := h, highBar := i - j } else c
  let l := lows.getD j ⊤
  if l < c.low then { c with low := l, lowBar := i - j } else c

/-- zigzag.rs:140. -/
def pivotCandle (length i : ℕ) (highs lows : List P) : PivotCandle P :=
  let start := i - (max length 1 - 1)
  (List.range' start (i + 1 - start)).foldl (PivotCandle.look i highs lows) ⟨0, 0, ⊥, ⊤⟩

variable (f : Ratios P R) (c : PivotCandle P) (newBar : ℤ) (idx : ℕ) (timesMs : List ℤ)

/-- zigzag.rs:224-235. -/
def forceDouble (pDir : ℤ) : List (ZigzagPivot P R) → Bool
  | _ :: ll :: _ => c.back (-pDir) = 0 && beyond (-pDir) (c.price (-pDir)) ll.point.price
  | _ => false

/-- Step 1 (:238-256). -/
def ZigzagLite.updateLast (z : ZigzagLite P R) (pDir : ℤ) : ZigzagLite P R :=
  match z.pivots with
  | [] => z
  | lp :: rest =>
    if c.back pDir = 0 && !beyond lp.dir lp.point.price (c.price pDir) then
      { z with flags := { z.flags with updateLastPivot := true }, pivots := rest }.addNewPivot f
        (.new f ⟨newBar, c.price pDir, timesMs.getD idx 0⟩ lp.dir.sign)
    else z

/-- Step 2 (:263-293). -/
def ZigzagLite.addOpposite (z : ZigzagLite P R) (pDir : ℤ) (force : Bool) : ZigzagLite P R :=
  if (!z.flags.newPivot || force) && c.back (-pDir) = 0 then
    z.addNewPivot f (c.pivot f newBar idx timesMs (-pDir))
  else z

/-- Step 3 (:296-313). -/
def ZigzagLite.addOverflow (z : ZigzagLite P R) (pDir : ℤ) (overflow : Bool) : ZigzagLite P R :=
  if overflow && !z.flags.newPivot then z.addNewPivot f (c.pivot f newBar idx timesMs (-pDir))
  else z

/-- zigzag.rs:192-313: the first pivot, or the three steps. -/
def ZigzagLite.stepBar (z : ZigzagLite P R) : ZigzagLite P R :=
  match z.pivots with
  | [] =>
    if c.back 1 = 0 then z.addNewPivot f (.new f ⟨newBar, c.price 1, timesMs.getD idx 0⟩ 1)
    else if c.back (-1) = 0 then
      z.addNewPivot f (.new f ⟨newBar, c.price (-1), timesMs.getD idx 0⟩ (-1))
    else z
  | last :: _ =>
    let pDir := lastTrendDir last.dir
    let overflow := decide (newBar - last.point.index ≥ z.length)
    let force := forceDouble c pDir z.pivots
    ((z.updateLast f c newBar idx timesMs pDir).addOpposite f c newBar idx timesMs pDir
      force).addOverflow f c newBar idx timesMs pDir overflow

def ZigzagLite.clearFlags (z : ZigzagLite P R) : ZigzagLite P R := { z with flags := .cleared }

/-- zigzag.rs:172. -/
def ZigzagLite.calculateBar (z : ZigzagLite P R) (barIndex : ℤ) (highs lows : List P) :
    ZigzagLite P R :=
  let z := z.clearFlags
  if highs.length ≤ idx ∨ lows.length ≤ idx then z
  else if idx + 1 < z.length then z
  else z.stepBar f (pivotCandle z.length idx highs lows) (barIndex - z.offset) idx timesMs

/-- The first `n` bars of the series. -/
def runBars (highs lows : List P) (length maxPivots offset n : ℕ) : ZigzagLite P R :=
  (List.range n).foldl (fun z i => z.calculateBar f i timesMs i highs lows)
    (.new length maxPivots offset)

/-- zigzag.rs:318. -/
def runSeries (highs lows : List P) (length maxPivots offset : ℕ) : ZigzagLite P R :=
  runBars f timesMs highs lows length maxPivots offset (min highs.length lows.length)

end bar

/-! ## Prices on a side -/

section beyond
variable [LinearOrder P] {dir : ℤ} {a b c : P}

theorem beyond_pos (h : 0 < dir) : beyond dir a b = decide (b < a) := if_pos h

theorem beyond_neg (h : dir < 0) : beyond dir a b = decide (a < b) := by
  rw [beyond, if_neg (not_lt.2 h.le), if_pos h]

@[simp] theorem beyond_self (dir : ℤ) (a : P) : beyond dir a a = false := by
  simp [beyond]

@[simp] theorem beyond_sign (dir : ℤ) : beyond dir.sign a b = beyond dir a b := by
  simp [beyond]

/-- What is not beyond `b` is not beyond what `b` is not beyond. -/
theorem beyond_trans (hab : beyond dir a b = false) (hbc : beyond dir b c = false) :
    beyond dir a c = false := by
  rcases lt_trichotomy dir 0 with h | h | h
  · simp only [beyond_neg h, decide_eq_false_iff_not, not_lt] at *
    exact hbc.trans hab
  · simp [h, beyond]
  · simp only [beyond_pos h, decide_eq_false_iff_not, not_lt] at *
    exact hab.trans hbc

theorem beyond_asymm (h : beyond dir a b = true) : beyond dir b a = false := by
  rcases lt_trichotomy dir 0 with hd | hd | hd
  · simp only [beyond_neg hd, decide_eq_true_eq, decide_eq_false_iff_not, not_lt] at *
    exact h.le
  · simp [hd, beyond]
  · simp only [beyond_pos hd, decide_eq_true_eq, decide_eq_false_iff_not, not_lt] at *
    exact h.le

end beyond

/-! ## The list of pivots -/

/-- `a` carries the point of `b`, on the same side. -/
def Carries (a b : ZigzagPivot P R) : Prop := a.point = b.point ∧ a.dir.sign = b.dir.sign

/-- `a` comes after `b`, on the other side and not at an older bar. -/
def Follows (a b : ZigzagPivot P R) : Prop :=
  a.dir.sign = -b.dir.sign ∧ b.point.index ≤ a.point.index

theorem Carries.refl (a : ZigzagPivot P R) : Carries a a := ⟨rfl, rfl⟩

theorem Carries.trans {a b c : ZigzagPivot P R} (h : Carries a b) (h' : Carries b c) : Carries a c :=
  ⟨h.1.trans h'.1, h.2.trans h'.2⟩

theorem Carries.follows {a b a' b' : ZigzagPivot P R} (ha : Carries a a') (hb : Carries b b')
    (h : Follows a' b') : Follows a b := by
  unfold Follows
  rw [ha.1, ha.2, hb.1, hb.2]
  exact h

section chained
variable [LinearOrder P]

/-- The pivots, newest first: each on a side, the sides in turn, the indices in order, and a pivot
that is not doubled does not go beyond the one two back. -/
structure Chained (pivots : List (ZigzagPivot P R)) : Prop where
  signed : ∀ p ∈ pivots, p.dir ≠ 0
  follows : pivots.IsChain Follows
  singles : ∀ a b c, [a, b, c] <:+: pivots → a.dir.natAbs ≠ 2 →
    beyond a.dir a.point.price c.point.price = false

theorem chained_nil : Chained ([] : List (ZigzagPivot P R)) where
  signed p hp := by simp at hp
  follows := List.isChain_nil
  singles a b c h := by simp at h

variable {pivots more : List (ZigzagPivot P R)} {p q : ZigzagPivot P R}

theorem Chained.infix (h : Chained pivots) (hsub : more <:+: pivots) : Chained more where
  signed p hp := h.signed p (hsub.subset hp)
  follows := h.follows.infix hsub
  singles a b c habc := h.singles a b c (habc.trans hsub)

theorem Chained.tail (h : Chained (p :: pivots)) : Chained pivots :=
  h.infix (List.suffix_cons p pivots).isInfix

theorem Chained.cons (h : Chained pivots) (hp : p.dir ≠ 0) (hfol : ∀ q ∈ pivots.head?, Follows p q)
    (hone : ∀ last llast older, pivots = last :: llast :: older → p.dir.natAbs ≠ 2 →
      beyond p.dir p.point.price llast.point.price = false) : Chained (p :: pivots) := by
  refine ⟨?_, List.isChain_cons.2 ⟨hfol, h.follows⟩, ?_⟩
  · intro q hq
    rcases List.mem_cons.1 hq with rfl | hq
    · exact hp
    · exact h.signed q hq
  · intro a b c habc hsingle
    rcases List.infix_cons_iff.1 habc with hpre | hin
    · obtain ⟨rfl, rest, hrest⟩ := List.cons_prefix_cons.1 hpre
      exact hone b c rest (by simpa using hrest.symm) hsingle
    · exact h.singles a b c hin hsingle

/-- From newest to oldest no index rises. -/
theorem Chained.sorted (h : Chained pivots) :
    pivots.Pairwise fun a b => b.point.index ≤ a.point.index := by
  have hmap : (pivots.map (·.point.index)).IsChain (· ≥ ·) :=
    (List.isChain_map _).2 (h.follows.imp fun _ _ hf => hf.2)
  exact List.pairwise_map.1 (List.isChain_iff_pairwise.1 hmap)

theorem measured_natAbs (f : Ratios P R) (last llast : ZigzagPivot P R)
    (older : List (ZigzagPivot P R)) (h : (p.measured f last llast older).dir.natAbs ≠ 2) :
    beyond p.dir p.point.price llast.point.price = false := by
  by_contra hb
  rw [Bool.not_eq_false, ← beyond_sign] at hb
  refine h ?_
  have hdir : (p.measured f last llast older).dir = p.dir.sign * 2 := by
    simp [ZigzagPivot.measured, hb]
  rw [hdir]
  rcases lt_trichotomy p.dir 0 with hd | hd | hd
  · rw [Int.sign_eq_neg_one_iff_neg.2 hd]
    rfl
  · simp [hd, beyond] at hb
  · rw [Int.sign_eq_one_iff_pos.2 hd]
    rfl

theorem measured_carries (f : Ratios P R) (p last llast : ZigzagPivot P R)
    (older : List (ZigzagPivot P R)) : Carries (p.measured f last llast older) p := by
  refine ⟨rfl, ?_⟩
  have htwo : Int.sign 2 = 1 := rfl
  simp only [ZigzagPivot.measured]
  split <;> simp [htwo]

variable {z : ZigzagLite P R} {f : Ratios P R}

/-- **A pivot on the other side is added**, with the point and the side it comes with. -/
theorem addNewPivot_of_follows (hz : Chained z.pivots) (hp : p.dir ≠ 0)
    (hfol : ∀ q ∈ z.pivots.head?, Follows p q) :
    ∃ p', Carries p' p ∧ z.addNewPivot f p = z.pushFront p' ∧ Chained (p' :: z.pivots) := by
  have hsign : p.dir.sign ≠ 0 := by simpa using hp
  have hother : ∀ q ∈ z.pivots.head?, q.dir.sign ≠ p.dir.sign := by
    intro q hq heq
    have := (hfol q hq).1
    omega
  unfold ZigzagLite.addNewPivot
  rw [if_neg hsign]
  rcases hpiv : z.pivots with _ | ⟨last, _ | ⟨llast, older⟩⟩
  · refine ⟨p, Carries.refl p, rfl, chained_nil.cons hp (by simp) (by simp)⟩
  · rw [hpiv] at hz hfol hother
    refine ⟨p, Carries.refl p, ?_, hz.cons hp hfol (by simp)⟩
    simp only [if_neg (hother last rfl)]
  · rw [hpiv] at hz hfol hother
    refine ⟨p.measured f last llast older, measured_carries f p last llast older, ?_, ?_⟩
    · simp only [if_neg (hother last rfl)]
    · have hcar := measured_carries f p last llast older
      refine hz.cons ?_ ?_ ?_
      · intro hzero
        rw [← hcar.2, hzero] at hsign
        exact hsign rfl
      · intro q hq
        exact hcar.follows (Carries.refl q) (hfol q hq)
      · intro last' llast' older' hl hsingle
        simp only [List.cons.injEq] at hl
        obtain ⟨-, rfl, -⟩ := hl
        rw [← beyond_sign, hcar.2, beyond_sign, hcar.1]
        exact measured_natAbs f last llast older hsingle

/-- The list after the bound on its size. -/
theorem Chained.pushFront (h : Chained (p :: z.pivots)) : Chained (z.pushFront p).pivots :=
  h.infix (List.take_prefix _ _).isInfix

end chained

theorem head_pushFront (z : ZigzagLite P R) (p : ZigzagPivot P R) :
    (z.pushFront p).pivots.head? = some p := by
  obtain ⟨n, hn⟩ := Nat.exists_eq_succ_of_ne_zero z.numberOfPivots_pos.ne'
  simp [ZigzagLite.pushFront, hn]

end Qtss.ChartPatterns
