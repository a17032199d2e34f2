import Mathlib.Data.List.Chain
import Mathlib.Algebra.Order.Field.Rat
import Qtss.Domain
import Qtss.Lib.Window
/-
# The zigzag detector (`qtss-pivots/src/zigzag.rs`)

| here | there |
| --- | --- |
| `PivotKind`          | `PivotKind` (`qtss-domain/src/v2/pivot.rs:18`) |
| `Sample`, `ConfirmedPivot`, `ZigZag` | zigzag.rs:60, :69, :101; prices are of any linearly ordered type with a difference |
| `ZigZag.withLength`  | `ZigZag::with_length` (:113) |
| `ZigZag.push`, `ZigZag.record` | `ZigZag::push` (:138), up to the signal and from there on |
| `computePivots`      | `compute_pivots` (:245) |

A bar signals a kind when it is at that extreme of its window and not at the other one; a bar at
both extremes is skipped on purpose ("Outside bars that hit both leave direction unchanged"). So
the price can leave the running head behind on skipped bars: `zigzag_genuine` says that this is
the only way in which two adjacent pivots come out in the wrong order.
-/

namespace Qtss.Pivots
open Window

inductive PivotKind where
  | high | low
deriving DecidableEq, Repr

def PivotKind.opposite : PivotKind → PivotKind
  | .high => .low
  | .low => .high

/-- `+1` up, `-1` down. -/
def PivotKind.dir : PivotKind → ℤ
  | .high => 1
  | .low => -1

structure Sample (P : Type*) where
  barIndex : ℕ
  time : DateTime
  high : P
  low : P
  volume : ℚ
deriving DecidableEq

structure ConfirmedPivot (P : Type*) where
  barIndex : ℕ
  time : DateTime
  price : P
  kind : PivotKind
  prominence : P
  volumeAtPivot : ℚ
  direction : ℤ
deriving DecidableEq

structure ZigZag (P : Type*) where
  length : ℕ
  length_pos : 0 < length
  window : List (Sample P)
  dir : ℤ
  /-- Oldest first; the last entry is the running head. -/
  pivots : List (ConfirmedPivot P)
deriving DecidableEq

variable {P : Type*}

def Sample.value (s : Sample P) : PivotKind → P
  | .high => s.high
  | .low => s.low

def ZigZag.withLength (length : ℕ) : ZigZag P := ⟨max length 1, by omega, [], 0, []⟩

section push
variable [LinearOrder P] [Sub P] [Zero P]

/-- `value` is more extreme than `price`. -/
def moreExtreme (kind : PivotKind) (value price : P) : Bool :=
  match kind with
  | .high => decide (value > price)
  | .low => decide (value < price)

/-- The bar signals `newDir` (zigzag.rs:158-215). -/
def ZigZag.record (z : ZigZag P) (window : List (Sample P)) (s : Sample P) (newDir : ℤ) :
    ZigZag P × Option (ConfirmedPivot P) :=
  let dirchanged := decide (newDir ≠ z.dir)
  let kind : PivotKind := if newDir = 1 then .high else .low
  let value := s.value kind
  -- "same direction → keep the more extreme of {head, new}"
  if !dirchanged && z.pivots.getLast?.any (fun last => !moreExtreme kind value last.price) then
    ({ z with window := window, dir := newDir }, none)
  else
    let pivots := if dirchanged then z.pivots else z.pivots.dropLast
    let strong := decide (pivots.length ≥ 2) &&
      pivots[pivots.length - 2]?.any fun prevSame => moreExtreme kind value prevSame.price
    let direction := if strong then newDir * 2 else newDir
    let prominence := match pivots.getLast? with
      | some p => max (value - p.price) (p.price - value)
      | none => 0
    let pivot : ConfirmedPivot P :=
      ⟨s.barIndex, s.time, value, kind, prominence, s.volume, direction⟩
    ({ z with window := window, dir := newDir, pivots := pivots ++ [pivot] }, some pivot)

/-- zigzag.rs:138. -/
def ZigZag.push (z : ZigZag P) (s : Sample P) : ZigZag P × Option (ConfirmedPivot P) :=
  let window := (z.window ++ [s]).rtake z.length
  if window.length < z.length then ({ z with window := window }, none)
  else
    let rh := (window.map (·.high)).max?.getD s.high
    let rl := (window.map (·.low)).min?.getD s.low
    let highHit := decide (s.high ≥ rh)
    let lowHit := decide (s.low ≤ rl)
    let phigh := highHit && !lowHit
    let plow := lowHit && !highHit
    if !(phigh || plow) then ({ z with window := window }, none)
    else z.record window s (if phigh then 1 else -1)

/-- zigzag.rs:245. -/
def computePivots (bars : List (Sample P)) (length : ℕ) : List (ConfirmedPivot P) :=
  (bars.foldl (fun z s => (z.push s).1) (ZigZag.withLength length)).pivots

end push

/-! ## Signals -/

section signals
variable [LinearOrder P]

/-- No bar of the window is more extreme than `s`. -/
def AtExtreme (window : List (Sample P)) (s : Sample P) (k : PivotKind) : Prop :=
  ∀ b ∈ window, moreExtreme k (b.value k) (s.value k) = false

instance (window : List (Sample P)) (s : Sample P) (k : PivotKind) : Decidable (AtExtreme window s k) :=
  inferInstanceAs (Decidable (∀ b ∈ window, _))

/-- The window with the bar. -/
def ZigZag.next (z : ZigZag P) (s : Sample P) : List (Sample P) := (z.window ++ [s]).rtake z.length

/-- The window is full and the bar is at its extreme of kind `k`, and not at the other one. -/
def ZigZag.Signals (z : ZigZag P) (s : Sample P) (k : PivotKind) : Prop :=
  z.length ≤ (z.next s).length ∧ AtExtreme (z.next s) s k ∧ ¬ AtExtreme (z.next s) s k.opposite

/-- The head is of kind `k` and the bar is not more extreme. -/
def ZigZag.Holds (z : ZigZag P) (s : Sample P) (k : PivotKind) : Prop :=
  z.dir = k.dir ∧ ∃ last ∈ z.pivots.getLast?, moreExtreme k (s.value k) last.price = false

/-- The bar becomes the head, as a pivot of kind `k`. -/
def ZigZag.Takes (z : ZigZag P) (s : Sample P) (k : PivotKind) : Prop := z.Signals s k ∧ ¬ z.Holds s k

/-- The pivots under the new head. -/
def ZigZag.base (z : ZigZag P) (k : PivotKind) : List (ConfirmedPivot P) :=
  if z.dir = k.dir then z.pivots.dropLast else z.pivots

variable {z : ZigZag P} {s : Sample P} {k : PivotKind} {w : List (Sample P)}

theorem moreExtreme_eq_false {a b : P} :
    moreExtreme k a b = false ↔ match k with | .high => a ≤ b | .low => b ≤ a := by
  cases k <;> simp [moreExtreme]

theorem moreExtreme_self (k : PivotKind) (a : P) : moreExtreme k a a = false := by
  cases k <;> simp [moreExtreme]

/-- At both extremes is at the one and at the other. -/
theorem atExtreme_both (k : PivotKind) :
    (∀ k', AtExtreme w s k') ↔ AtExtreme w s k ∧ AtExtreme w s k.opposite := by
  refine ⟨fun h => ⟨h _, h _⟩, fun ⟨h, hopp⟩ k' => ?_⟩
  cases k <;> cases k' <;> assumption

theorem highHit_iff (hs : s ∈ w) :
    s.high ≥ (w.map (·.high)).max?.getD s.high ↔ AtExtreme w s .high := by
  have : Std.LawfulOrderLeftLeaningMax P :=
    ⟨fun _ _ => max_eq_left, fun _ _ h => max_eq_right (le_of_not_ge h)⟩
  have hsmem : s.high ∈ w.map (·.high) := List.mem_map_of_mem hs
  obtain ⟨rh, hrh⟩ := Option.isSome_iff_exists.1 (List.isSome_max?_of_mem hsmem)
  obtain ⟨hmem, hmax⟩ := List.max?_eq_some_iff.1 hrh
  rw [hrh, Option.getD_some]
  constructor
  · intro h b hb
    exact moreExtreme_eq_false.2 ((hmax _ (List.mem_map_of_mem hb)).trans h)
  · intro h
    obtain ⟨b, hb, rfl⟩ := List.mem_map.1 hmem
    exact moreExtreme_eq_false.1 (h b hb)

theorem lowHit_iff (hs : s ∈ w) :
    s.low ≤ (w.map (·.low)).min?.getD s.low ↔ AtExtreme w s .low := by
  have : Std.LawfulOrderLeftLeaningMin P :=
    ⟨fun _ _ => min_eq_left, fun _ _ h => min_eq_right (le_of_not_ge h)⟩
  have hsmem : s.low ∈ w.map (·.low) := List.mem_map_of_mem hs
  obtain ⟨rl, hrl⟩ := Option.isSome_iff_exists.1 (List.isSome_min?_of_mem hsmem)
  obtain ⟨hmem, hmin⟩ := List.min?_eq_some_iff.1 hrl
  rw [hrl, Option.getD_some]
  constructor
  · intro h b hb
    exact moreExtreme_eq_false.2 (h.trans (hmin _ (List.mem_map_of_mem hb)))
  · intro h
    obtain ⟨b, hb, rfl⟩ := List.mem_map.1 hmem
    exact moreExtreme_eq_false.1 (h b hb)

omit [LinearOrder P] in
theorem ZigZag.mem_next (z : ZigZag P) (s : Sample P) : s ∈ z.next s := mem_push z.length_pos _ s

theorem ZigZag.Signals.unique {k' : PivotKind} (h : z.Signals s k) (h' : z.Signals s k') : k = k' := by
  cases k <;> cases k'
  · rfl
  · exact absurd h.2.1 h'.2.2
  · exact absurd h.2.1 h'.2.2
  · rfl

variable [Sub P] [Zero P]

/-- The pivot a bar becomes. -/
def ZigZag.pivotOf (z : ZigZag P) (s : Sample P) (k : PivotKind) : ConfirmedPivot P :=
  let value := s.value k
  let strong := decide ((z.base k).length ≥ 2) &&
    (z.base k)[(z.base k).length - 2]?.any fun prevSame => moreExtreme k value prevSame.price
  let prominence := match (z.base k).getLast? with
    | some p => max (value - p.price) (p.price - value)
    | none => 0
  ⟨s.barIndex, s.time, value, k, prominence, s.volume, if strong then k.dir * 2 else k.dir⟩

/-- What a bar that signals `k` does. -/
theorem ZigZag.record_eq (z : ZigZag P) (w : List (Sample P)) (s : Sample P) (k : PivotKind) :
    (z.Holds s k ∧ z.record w s k.dir = ({ z with window := w, dir := k.dir }, none))
    ∨ (¬ z.Holds s k ∧ z.record w s k.dir =
      ({ z with window := w, dir := k.dir, pivots := z.base k ++ [z.pivotOf s k] },
        some (z.pivotOf s k))) := by
  have hkind : (if k.dir = 1 then PivotKind.high else .low) = k := by cases k <;> rfl
  have hheld : ((!decide (k.dir ≠ z.dir) && z.pivots.getLast?.any fun last =>
      !moreExtreme k (s.value k) last.price) = true) ↔ z.Holds s k := by
    rw [Bool.and_eq_true, Bool.not_eq_true', decide_eq_false_iff_not, not_not, @eq_comm _ k.dir z.dir,
      Holds]
    cases z.pivots.getLast? <;> simp
  have hbase : (if decide (k.dir ≠ z.dir) = true then z.pivots else z.pivots.dropLast) = z.base k := by
    unfold base
    by_cases hd : z.dir = k.dir
    · simp [hd]
    · simp [hd, Ne.symm hd]
  unfold record
  simp only [hkind, hbase]
  by_cases h : z.Holds s k
  · exact .inl ⟨h, if_pos (hheld.2 h)⟩
  · exact .inr ⟨h, if_neg (mt hheld.1 h)⟩

/-- **One bar**: it enters the window, and is recorded if it signals. -/
theorem ZigZag.push_eq (z : ZigZag P) (s : Sample P) :
    ((∀ k, ¬ z.Signals s k) ∧ z.push s = ({ z with window := z.next s }, none))
    ∨ ∃ k, z.Signals s k ∧ z.push s = z.record (z.next s) s k.dir := by
  have hhigh := highHit_iff (z.mem_next s)
  have hlow := lowHit_iff (z.mem_next s)
  unfold push
  simp only
  rw [← next]
  by_cases hlen : (z.next s).length < z.length
  · left
    rw [if_pos hlen]
    exact ⟨fun k h => absurd h.1 (not_le.2 hlen), rfl⟩
  · rw [if_neg hlen]
    simp only [hhigh, hlow]
    by_cases hh : AtExtreme (z.next s) s .high <;> by_cases hl : AtExtreme (z.next s) s .low
    · left
      refine ⟨?_, by simp [hh, hl]⟩
      rintro (_ | _) h
      exacts [h.2.2 hl, h.2.2 hh]
    · right
      exact ⟨.high, ⟨not_lt.1 hlen, hh, hl⟩, by simp [hh, hl, PivotKind.dir]⟩
    · right
      exact ⟨.low, ⟨not_lt.1 hlen, hl, hh⟩, by simp [hh, hl, PivotKind.dir]⟩
    · left
      refine ⟨?_, by simp [hh, hl]⟩
      rintro (_ | _) h
      exacts [hh h.2.1, hl h.2.1]

/-- A bar that does not become the head leaves the pivots alone. -/
theorem ZigZag.push_of_not_takes (h : ∀ k, ¬ z.Takes s k) :
    (z.push s).1.pivots = z.pivots ∧ (z.push s).1.dir = z.dir ∧ (z.push s).2 = none := by
  rcases z.push_eq s with ⟨-, hp⟩ | ⟨k, hk, hp⟩
  · rw [hp]
    exact ⟨rfl, rfl, rfl⟩
  · rcases z.record_eq (z.next s) s k with ⟨hheld, hr⟩ | ⟨hheld, -⟩
    · rw [hp, hr]
      exact ⟨rfl, hheld.1.symm, rfl⟩
    · exact absurd ⟨hk, hheld⟩ (h k)

/-- A bar that becomes the head as `k`. -/
theorem ZigZag.push_of_takes (h : z.Takes s k) :
    (z.push s).1.pivots = z.base k ++ [z.pivotOf s k] ∧ (z.push s).1.dir = k.dir
    ∧ (z.push s).2 = some (z.pivotOf s k) := by
  rcases z.push_eq s with ⟨hno, -⟩ | ⟨k', hk', hp⟩
  · exact absurd h.1 (hno k)
  · obtain rfl := hk'.unique h.1
    rcases z.record_eq (z.next s) s k' with ⟨hheld, -⟩ | ⟨-, hr⟩
    · exact absurd hheld h.2
    · rw [hp, hr]
      exact ⟨rfl, rfl, rfl⟩

/-- Every bar enters the window. -/
theorem ZigZag.push_window (z : ZigZag P) (s : Sample P) :
    (z.push s).1.window = z.next s ∧ (z.push s).1.length = z.length := by
  rcases z.push_eq s with ⟨-, hp⟩ | ⟨k, -, hp⟩
  · rw [hp]
    exact ⟨rfl, rfl⟩
  · rcases z.record_eq (z.next s) s k with ⟨-, hr⟩ | ⟨-, hr⟩ <;> rw [hp, hr] <;> exact ⟨rfl, rfl⟩

end signals

/-! ## Adjacent pivots -/

section adjacent
variable [LinearOrder P]

/-- The bar `x` became the pivot. -/
def Source (A : ConfirmedPivot P) (x : Sample P) : Prop :=
  A.barIndex = x.barIndex ∧ A.time = x.time ∧ A.price = x.value A.kind

/-- The bar goes beyond the pivot. -/
def Beyond (A : ConfirmedPivot P) (b : Sample P) : Prop := moreExtreme A.kind (b.value A.kind) A.price

/-- After the bars `past` the bar `c` touches both extremes of its window, and is skipped. -/
def Skipped (n : ℕ) (past : List (Sample P)) (c : Sample P) : Prop :=
  ∀ k, AtExtreme ((past ++ [c]).rtake n) c k

/-- Of the two pivots the high is no lower than the low. -/
def Ordered (A B : ConfirmedPivot P) : Prop :=
  match A.kind with
  | .high => B.kind = .low ∧ B.price ≤ A.price
  | .low => B.kind = .high ∧ A.price ≤ B.price

instance (A B : ConfirmedPivot P) : Decidable (Ordered A B) := by
  unfold Ordered
  split <;> infer_instance

/-- A skipped bar of `mid` went beyond the pivot; `past` are the bars up to the pivot's. -/
def Overshot (n : ℕ) (past mid : List (Sample P)) (A : ConfirmedPivot P) : Prop :=
  ∃ before c after, mid = before ++ c :: after ∧ Skipped n (past ++ before) c ∧ Beyond A c

/-- `A` and `B` are pivots of opposite kinds, in order unless a skipped bar between theirs went beyond
`A`. -/
def Pair (n : ℕ) (bars : List (Sample P)) (A B : ConfirmedPivot P) : Prop :=
  B.kind = A.kind.opposite ∧ ∃ pre x mid y post, bars = pre ++ x :: (mid ++ y :: post)
    ∧ Source A x ∧ Source B y ∧ (Ordered A B ∨ Overshot n (pre ++ [x]) mid A)

/-- `A` is the head: no bar of its window and, unless a skipped one did, no bar since went beyond
it. -/
def Leads (n : ℕ) (bars : List (Sample P)) (A : ConfirmedPivot P) : Prop :=
  ∃ pre x mid, bars = pre ++ x :: mid ∧ Source A x ∧ n ≤ (pre ++ [x]).length
    ∧ (∀ b ∈ (pre ++ [x]).rtake n, ¬ Beyond A b)
    ∧ (Overshot n (pre ++ [x]) mid A ∨ ∀ b ∈ mid, ¬ Beyond A b)

variable {n : ℕ} {bars : List (Sample P)} {A B : ConfirmedPivot P} {s : Sample P}

theorem Overshot.append {past mid : List (Sample P)} (h : Overshot n past mid A)
    (more : List (Sample P)) : Overshot n past (mid ++ more) A := by
  obtain ⟨before, c, after, rfl, hskip, hbeyond⟩ := h
  exact ⟨before, c, after ++ more, by simp, hskip, hbeyond⟩

theorem Pair.append (h : Pair n bars A B) (s : Sample P) : Pair n (bars ++ [s]) A B := by
  obtain ⟨hkind, pre, x, mid, y, post, rfl, hx, hy, hor⟩ := h
  exact ⟨hkind, pre, x, mid, y, post ++ [s], by simp, hx, hy, hor⟩

theorem ordered_iff (hkind : B.kind = A.kind.opposite) :
    Ordered A B ↔ moreExtreme A.kind B.price A.price = false := by
  unfold Ordered
  cases hA : A.kind <;> simp [moreExtreme, hkind, hA, PivotKind.opposite]

theorem Source.not_beyond {x : Sample P} (h : Source A x) : ¬ Beyond A x := by
  rw [Beyond, h.2.2, moreExtreme_self]
  exact Bool.false_ne_true

/-- A bar beyond the pivot is at the extreme of a window in which no other bar is. -/
theorem atExtreme_of_beyond {w : List (Sample P)} (hs : Beyond A s)
    (hw : ∀ b ∈ w, ¬ Beyond A b ∨ b = s) : AtExtreme w s A.kind := by
  intro b hb
  rcases hw b hb with hb | rfl
  · unfold Beyond at hs hb
    cases hk : A.kind <;> simp only [hk, moreExtreme, decide_eq_true_eq, not_lt,
      decide_eq_false_iff_not, gt_iff_lt] at hs hb ⊢
    exacts [hb.trans hs.le, hs.le.trans hb]
  · exact moreExtreme_self _ _

/-- The state of the detector after `bars`. -/
structure Tracked (n : ℕ) (bars : List (Sample P)) (z : ZigZag P) : Prop where
  length : z.length = n
  window : z.window = bars.rtake n
  fresh : z.pivots = [] → z.dir = 0
  head : ∀ A ∈ z.pivots.getLast?, z.dir = A.kind.dir ∧ Leads n bars A
  pairs : z.pivots.IsChain (Pair n bars)

variable {z : ZigZag P} {k : PivotKind}

theorem tracked_withLength (length : ℕ) :
    Tracked (max length 1) [] (ZigZag.withLength length : ZigZag P) where
  length := rfl
  window := (List.rtake_nil _).symm
  fresh _ := rfl
  head _ hA := nomatch hA
  pairs := List.isChain_nil

theorem Tracked.next (h : Tracked n bars z) (s : Sample P) : z.next s = (bars ++ [s]).rtake n := by
  rw [ZigZag.next, h.window, h.length, rtake_push (h.length ▸ z.length_pos)]

theorem dir_injective : Function.Injective PivotKind.dir := by
  intro k k' h
  cases k <;> cases k' <;> first | rfl | exact absurd h (by decide)

/-- A bar that does not become the head: a bar beyond the head was skipped. -/
theorem Leads.append (h : Tracked n bars z) (hA : A ∈ z.pivots.getLast?)
    (hno : ∀ k, ¬ z.Takes s k) : Leads n (bars ++ [s]) A := by
  obtain ⟨hdir, pre, x, mid, rfl, hx, hlen, hwin, hmid⟩ := h.head A hA
  refine ⟨pre, x, mid ++ [s], by simp, hx, hlen, hwin, ?_⟩
  rcases hmid with hover | hmid
  · exact .inl (hover.append [s])
  by_cases hs : Beyond A s
  · left
    have hnext := h.next s
    rw [List.append_cons pre x mid] at hnext
    have hat : AtExtreme (z.next s) s A.kind := by
      refine atExtreme_of_beyond hs fun b hb => ?_
      rw [hnext, List.append_assoc] at hb
      rcases mem_rtake_append hb with hb | hb
      · exact .inl (hwin b hb)
      · rw [List.mem_append, List.mem_singleton] at hb
        exact hb.imp_left (hmid b)
    refine ⟨mid, s, [], rfl, ?_, hs⟩
    have hboth : AtExtreme (z.next s) s A.kind.opposite := by
      by_contra hopp
      refine hno A.kind ⟨⟨?_, hat, hopp⟩, ?_⟩
      · rw [hnext, h.length, length_rtake]
        simp only [List.length_append, List.length_cons, List.length_nil] at hlen ⊢
        omega
      · rintro ⟨-, last, hlast, hnot⟩
        obtain rfl := Option.some.inj (hA.symm.trans hlast)
        exact Bool.false_ne_true (hnot.symm.trans hs)
    rw [Skipped, ← hnext]
    exact (atExtreme_both A.kind).2 ⟨hat, hboth⟩
  · right
    intro b hb
    rcases List.mem_append.1 hb with hb | hb
    exacts [hmid b hb, List.mem_singleton.1 hb ▸ hs]

/-- The next-to-last bar is in the window, unless the window holds one bar, and one bar is at both of
its extremes. -/
theorem last_mem_next {l : Sample P} (h : Tracked n (bars ++ [l]) z) (hs : z.Signals s k) :
    l ∈ z.next s := by
  have hnext := h.next s
  rcases Nat.lt_or_ge 1 n with hn | hn
  · rw [hnext]
    exact mem_push_push hn bars l s
  · obtain rfl : n = 1 := le_antisymm hn (h.length ▸ z.length_pos)
    have hself : ∀ k, AtExtreme (z.next s) s k := by
      intro k b hb
      rw [hnext, rtake_one, List.mem_singleton] at hb
      rw [hb]
      exact moreExtreme_self _ _
    exact absurd (hself _) hs.2.2

section takes
variable [Sub P] [Zero P]

theorem pivotOf_source : Source (z.pivotOf s k) s := ⟨rfl, rfl, rfl⟩

/-- The bar that becomes the head leads. -/
theorem leads_pivotOf (h : Tracked n bars z) (hs : z.Signals s k) :
    Leads n (bars ++ [s]) (z.pivotOf s k) := by
  refine ⟨bars, s, [], rfl, pivotOf_source, ?_, fun b hb => ?_, .inr nofun⟩
  · have hlen := hs.1
    rw [h.next s, h.length, length_rtake] at hlen
    omega
  · rw [← h.next s] at hb
    exact Bool.eq_false_iff.1 (hs.2.1 b hb)

/-- A bar that turns the direction pairs with the head. -/
theorem pair_turn (h : Tracked n bars z) (hbars : ∀ b ∈ bars ++ [s], b.low ≤ b.high)
    (hA : A ∈ z.pivots.getLast?) (hs : z.Signals s k) (hturn : z.dir ≠ k.dir) :
    Pair n (bars ++ [s]) A (z.pivotOf s k) := by
  obtain ⟨hdir, pre, x, mid, rfl, hx, hlen, hwin, hmid⟩ := h.head A hA
  have hkind : k = A.kind.opposite := by
    rw [hdir] at hturn
    cases hk : A.kind <;> cases k <;> simp [hk, PivotKind.opposite] at hturn ⊢
  refine ⟨hkind, pre, x, mid, s, [], by simp, hx, pivotOf_source, ?_⟩
  rcases hmid with hover | hmid
  · exact .inr hover
  left
  rw [ordered_iff hkind, ← Bool.not_eq_true]
  intro hwrong
  -- the bar before `s` is in the window and not beyond `A`
  obtain ⟨before, l, hl, hnot⟩ : ∃ before l, pre ++ x :: mid = before ++ [l] ∧ ¬ Beyond A l := by
    rcases mid.eq_nil_or_concat with rfl | ⟨mid, l, rfl⟩
    · exact ⟨pre, x, rfl, hx.not_beyond⟩
    · exact ⟨pre ++ x :: mid, l, by simp, hmid l (by simp)⟩
  have hmem := last_mem_next (hl ▸ h) hs
  have hlow : l.low ≤ l.high := hbars l (by rw [hl]; simp)
  have hext := hs.2.1 l hmem
  refine hnot ?_
  unfold Beyond
  subst hkind
  cases hk : A.kind <;> simp only [hk, PivotKind.opposite, moreExtreme, Sample.value, ZigZag.pivotOf,
    decide_eq_true_eq, decide_eq_false_iff_not, not_lt, gt_iff_lt] at hwrong hext ⊢
  exacts [hwrong.trans_le (hext.trans hlow), decide_eq_true ((hlow.trans hext).trans_lt hwrong)]

/-- A bar that replaces the head pairs with the pivot before it. -/
theorem pair_replace (hpair : Pair n bars A B) (hmore : moreExtreme k (s.value k) B.price)
    (hk : B.kind = k) : Pair n (bars ++ [s]) A (z.pivotOf s k) := by
  obtain ⟨hkind, pre, x, mid, y, post, rfl, hx, -, hor⟩ := hpair
  have hkind' : (z.pivotOf s k).kind = A.kind.opposite := hk.symm.trans hkind
  refine ⟨hkind', pre, x, mid ++ y :: post, s, [], by simp, hx, pivotOf_source, ?_⟩
  rcases hor with hord | hover
  · left
    rw [ordered_iff hkind] at hord
    rw [ordered_iff hkind']
    subst hk
    have hprice : (z.pivotOf s B.kind).price = s.value B.kind := rfl
    rw [hprice]
    rw [hkind] at hmore ⊢
    cases hk : A.kind <;> simp only [hk, PivotKind.opposite, moreExtreme, decide_eq_true_eq,
      decide_eq_false_iff_not, not_lt, gt_iff_lt] at hord hmore ⊢
    exacts [hmore.le.trans hord, decide_eq_false (hord.trans hmore.le).not_gt]
  · exact .inr (hover.append _)

theorem chain_base (h : Tracked n bars z) (hbars : ∀ b ∈ bars ++ [s], b.low ≤ b.high)
    (hpairs : z.pivots.IsChain (Pair n (bars ++ [s]))) (hk : z.Takes s k) :
    (z.base k ++ [z.pivotOf s k]).IsChain (Pair n (bars ++ [s])) := by
  by_cases hd : z.dir = k.dir
  · -- the head is replaced
    have hne : z.pivots ≠ [] := by
      intro hnil
      rw [h.fresh hnil] at hd
      cases k <;> cases hd
    obtain ⟨older, A, hA⟩ : ∃ older A, z.pivots = older ++ [A] :=
      ⟨_, _, (List.dropLast_append_getLast hne).symm⟩
    have hhead : A ∈ z.pivots.getLast? := by rw [hA, List.getLast?_concat]; rfl
    have hkind : A.kind = k := dir_injective ((h.head A hhead).1.symm.trans hd)
    have hmore : moreExtreme k (s.value k) A.price := by
      by_contra hnot
      exact hk.2 ⟨hd, A, hhead, Bool.eq_false_iff.2 hnot⟩
    have hold := h.pairs
    rw [hA, List.isChain_append] at hold hpairs
    rw [ZigZag.base, if_pos hd, hA, List.dropLast_concat]
    refine List.isChain_append.2 ⟨hpairs.1, List.isChain_singleton _, fun B hB C hC => ?_⟩
    obtain rfl := Option.some.inj hC
    exact pair_replace (hold.2.2 B hB A rfl) hmore hkind
  · rw [ZigZag.base, if_neg hd]
    refine List.isChain_append.2 ⟨hpairs, List.isChain_singleton _, fun A hA C hC => ?_⟩
    obtain rfl := Option.some.inj hC
    exact pair_turn h hbars hA hk.1 hd

/-- **One bar** keeps the track. -/
theorem tracked_push (h : Tracked n bars z) (hbars : ∀ b ∈ bars ++ [s], b.low ≤ b.high) :
    Tracked n (bars ++ [s]) (z.push s).1 := by
  obtain ⟨hwindow, hlength⟩ := z.push_window s
  have hpairs : z.pivots.IsChain (Pair n (bars ++ [s])) := h.pairs.imp fun _ _ hp => hp.append s
  by_cases hk : ∃ k, z.Takes s k
  · obtain ⟨k, hk⟩ := hk
    obtain ⟨hpivots, hdir, -⟩ := ZigZag.push_of_takes hk
    refine ⟨hlength.trans h.length, hwindow.trans (h.next s), fun hnil => ?_, fun A hA => ?_, ?_⟩
    · rw [hpivots] at hnil
      exact absurd hnil (List.append_ne_nil_of_right_ne_nil _ (List.cons_ne_nil _ _))
    · rw [hpivots, List.getLast?_concat] at hA
      obtain rfl := Option.some.inj hA
      exact ⟨hdir, leads_pivotOf h hk.1⟩
    · rw [hpivots]
      exact chain_base h hbars hpairs hk
  · have hno : ∀ k, ¬ z.Takes s k := fun k hk' => hk ⟨k, hk'⟩
    obtain ⟨hpivots, hdir, -⟩ := ZigZag.push_of_not_takes hno
    refine ⟨hlength.trans h.length, hwindow.trans (h.next s), fun hnil => ?_, fun A hA => ?_, ?_⟩
    · rw [hdir]
      exact h.fresh (hpivots ▸ hnil)
    · rw [hpivots] at hA
      exact ⟨hdir.trans (h.head A hA).1, Leads.append h hA hno⟩
    · rwa [hpivots]

theorem tracked_run (h : Tracked n bars z) (more : List (Sample P))
    (hbars : ∀ b ∈ bars ++ more, b.low ≤ b.high) :
    Tracked n (bars ++ more) (more.foldl (fun z s => (z.push s).1) z) := by
  induction more generalizing bars z with
  | nil => rwa [List.append_nil]
  | cons s more ih =>
    rw [List.append_cons] at hbars ⊢
    exact ih (tracked_push h fun b hb => hbars b (List.mem_append_left _ hb)) hbars

/-- **The zigzag**: of two adjacent pivots the high is no lower than the low, unless a bar between
theirs was skipped and went beyond the older one. -/
theorem zigzag_genuine (length : ℕ) (bars : List (Sample P)) (hbars : ∀ b ∈ bars, b.low ≤ b.high) :
    (computePivots bars length).IsChain (Pair (max length 1) bars) :=
  (tracked_run (tracked_withLength length) bars hbars).pairs

end takes

end adjacent

/-- A high at 100, an outside bar, and a low at 140 inside it. -/
def outsideBars : List (Sample ℚ) :=
  [⟨0, 0, 90, 80, 1⟩, ⟨1, 60, 100, 85, 1⟩, ⟨2, 120, 200, 50, 1⟩, ⟨3, 180, 180, 150, 1⟩,
    ⟨4, 240, 170, 140, 1⟩]

theorem low_above_high : (∀ b ∈ outsideBars, b.low ≤ b.high)
    ∧ (computePivots outsideBars 2).map (fun p => (p.kind, p.price)) =
      [(PivotKind.high, 100), (PivotKind.low, 140)]
    ∧ ¬ (computePivots outsideBars 2).IsChain Ordered := by
  decide +kernel

theorem outsideBars_genuine : (computePivots outsideBars 2).IsChain (Pair (max 2 1) outsideBars) :=
  zigzag_genuine 2 outsideBars (by decide +kernel)

end Qtss.Pivots
