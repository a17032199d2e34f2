import Qtss.ChartPatterns.Pine
import Mathlib.Tactic.FieldSimp
import Mathlib.Tactic.Linarith
import Mathlib.Data.List.Count
import Mathlib.Data.List.TakeWhile
/-
# The best line of one side

`scan.rs` looks at a line on the bars of its own side's pivots, the original on all the bars of the pattern. Both pick
among the same lines by the same rule, so they pick alike when the other bars show nothing (`NothingUnseen`), when one
line wins whatever they show (`Wins`), and neither picks a line when all are broken on the pivots' own bars (`Hopeless`).
-/

namespace Qtss.ChartPatterns

variable {p1 p2 a b c : ℤ × ℚ} {d : ℚ} {bars : BarMap} {ohlc : ℤ → OhlcBar} {i s e first last other : ℤ} {own whole : ℤ × ℤ}

/-! ## One bar -/

def lineAt (line : (ℤ × ℚ) × (ℤ × ℚ)) (bar : ℤ) : ℚ :=
  line.1.2 + (bar - line.1.1 : ℤ) * ((line.2.2 - line.1.2) / (line.2.1 - line.1.1 : ℤ))

theorem linePriceAtBarIndex_eq (h : p1.1 ≠ p2.1) (bar : ℤ) : linePriceAtBarIndex p1 p2 bar = some (lineAt (p1, p2) bar) := by
  rw [linePriceAtBarIndex, if_neg (sub_ne_zero.2 h.symm)]
  rfl

theorem getPrice_eq (h : p1.1 ≠ p2.1) (bar : ℤ) : Pine.getPrice ⟨p1, p2⟩ bar = some (lineAt (p1, p2) bar) := by
  have hne : (p2.1 : ℚ) - p1.1 ≠ 0 := by
    rw [← Int.cast_sub, Int.cast_ne_zero]
    exact sub_ne_zero.2 h.symm
  simp [Pine.getPrice, Pine.quo, hne, lineAt]

def touches (bars : BarMap) (line : (ℤ × ℚ) × (ℤ × ℚ)) (bar : ℤ) : Bool :=
  (bars.get bar).any fun ohlc => ohlc.low ≤ lineAt line bar ∧ lineAt line bar ≤ ohlc.high

/-- The bar's body is beyond the line. -/
def Beyond (bars : BarMap) (direction : ℚ) (line : (ℤ × ℚ) × (ℤ × ℚ)) (bar : ℤ) : Prop :=
  ∃ ohlc ∈ bars.get bar, lineAt line bar * direction < min (ohlc.openPrice * direction) (ohlc.close * direction)

instance (bars : BarMap) (direction : ℚ) (line : (ℤ × ℚ) × (ℤ × ℚ)) (bar : ℤ) : Decidable (Beyond bars direction line bar) :=
  inferInstanceAs (Decidable (∃ ohlc ∈ bars.get bar, _ < _))

/-- A line through two of the pivots, and the bar of the third. -/
structure Candidate where
  line : (ℤ × ℚ) × (ℤ × ℚ)
  other : ℤ
deriving DecidableEq

/-- The loop stops at the bar: its body is beyond the line, or it is the third pivot's and not touched. -/
def Candidate.BreaksAt (c : Candidate) (bars : BarMap) (direction : ℚ) (bar : ℤ) : Prop :=
  Beyond bars direction c.line bar ∨ touches bars c.line bar = false ∧ (bars.get bar).isSome ∧ bar = c.other

instance (c : Candidate) (bars : BarMap) (direction : ℚ) (bar : ℤ) : Decidable (c.BreaksAt bars direction bar) :=
  inferInstanceAs (Decidable (_ ∨ _))

section bar
variable {o : OhlcBar} {line : (ℤ × ℚ) × (ℤ × ℚ)} (hget : bars.get i = some o)
include hget

theorem beyond_iff : Beyond bars d line i ↔ lineAt line i * d < min (o.openPrice * d) (o.close * d) := by
  simp [Beyond, hget]

theorem touches_iff : touches bars line i = true ↔ o.low ≤ lineAt line i ∧ lineAt line i ≤ o.high := by
  simp [touches, hget]

/-- Which end of the bar is the near one depends on the side, whether the line touches it does not. -/
theorem near_far_iff (hd : d = 1 ∨ d = -1) : (lineAt line i * d ≥ (if d > 0 then o.low else o.high) * d ∧
    lineAt line i * d ≤ (if d > 0 then o.high else o.low) * d) ↔ touches bars line i = true := by
  rw [touches_iff hget]
  have hneg : ¬ (1 : ℚ) < 0 := by norm_num
  rcases hd with rfl | rfl
  · simp
  · simp [hneg, and_comm]

end bar

/-- The loop body, for a line through two bars. -/
theorem inspectBar_eq (h : p1.1 ≠ p2.1) (hd : d = 1 ∨ d = -1) (i : ℤ) : inspectBar p1 p2 other d bars i =
    if (Candidate.mk (p1, p2) other).BreaksAt bars d i then none else some (if touches bars (p1, p2) i then 1 else 0) := by
  cases hget : bars.get i with
  | none => simp [inspectBar, Candidate.BreaksAt, Beyond, touches, hget]
  | some o =>
    simp only [inspectBar, hget, linePriceAtBarIndex_eq h, near_far_iff hget hd, ← beyond_iff hget]
    by_cases hbeyond : Beyond bars d (p1, p2) i
    · simp [Candidate.BreaksAt, hbeyond]
    · by_cases htouch : touches bars (p1, p2) i <;> simp [Candidate.BreaksAt, hbeyond, htouch, hget]

theorem inspectBar_getD (h : p1.1 ≠ p2.1) (hd : d = 1 ∨ d = -1) (hok : ¬ (Candidate.mk (p1, p2) other).BreaksAt bars d i) :
    (inspectBar p1 p2 other d bars i).getD 0 = if touches bars (p1, p2) i then 1 else 0 := by
  rw [inspectBar_eq h hd, if_neg hok, Option.getD_some]

theorem isSome_inspectBar (h : p1.1 ≠ p2.1) (hd : d = 1 ∨ d = -1) (i : ℤ) : (inspectBar p1 p2 other d bars i).isSome =
    !decide ((Candidate.mk (p1, p2) other).BreaksAt bars d i) := by
  by_cases hbreak : (Candidate.mk (p1, p2) other).BreaksAt bars d i <;> simp [inspectBar_eq h hd, hbreak]

/-- The line runs past the bar, on the side of the body it should be on, and does not touch it. -/
def Passes (bars : BarMap) (direction : ℚ) (line : (ℤ × ℚ) × (ℤ × ℚ)) (bar : ℤ) : Prop :=
  touches bars line bar = false ∧ ¬ Beyond bars direction line bar

instance (bars : BarMap) (direction : ℚ) (line : (ℤ × ℚ) × (ℤ × ℚ)) (bar : ℤ) : Decidable (Passes bars direction line bar) :=
  inferInstanceAs (Decidable (_ ∧ _))

theorem inspectBar_of_passes (h : p1.1 ≠ p2.1) (hd : d = 1 ∨ d = -1) (hpass : Passes bars d (p1, p2) i) (hne : i ≠ other) :
    inspectBar p1 p2 other d bars i = some 0 := by
  obtain ⟨htouch, hside⟩ := hpass
  have hok : ¬ (Candidate.mk (p1, p2) other).BreaksAt bars d i := by simp [Candidate.BreaksAt, hside, hne]
  simp [inspectBar_eq h hd, hok, htouch]

/-! ## A stretch of bars -/

/-- The bars from the first to the last, both included. -/
abbrev stretchBars (stretch : ℤ × ℤ) : List ℤ := Int.range stretch.1 (stretch.2 + 1)

theorem mem_stretchBars {stretch : ℤ × ℤ} {bar : ℤ} : bar ∈ stretchBars stretch ↔ stretch.1 ≤ bar ∧ bar ≤ stretch.2 := by
  rw [Int.mem_range_iff]
  omega

def touchCount (bars : BarMap) (line : (ℤ × ℚ) × (ℤ × ℚ)) (stretch : ℤ × ℤ) : ℕ :=
  (stretchBars stretch).countP (touches bars line)

/-- The bars touched before the loop stops. -/
def Candidate.reached (c : Candidate) (bars : BarMap) (direction : ℚ) (stretch : ℤ × ℤ) : ℕ :=
  ((stretchBars stretch).takeWhile fun bar => !decide (c.BreaksAt bars direction bar)).countP (touches bars c.line)

def Candidate.Unbroken (c : Candidate) (bars : BarMap) (direction : ℚ) (stretch : ℤ × ℤ) : Prop :=
  ∀ bar ∈ stretchBars stretch, ¬ c.BreaksAt bars direction bar

/-- No bar stops the loop, and less than a fifth of the bars touch the line. -/
def Candidate.Holds (c : Candidate) (bars : BarMap) (direction : ℚ) (stretch : ℤ × ℤ) : Prop :=
  c.Unbroken bars direction stretch ∧ 5 * touchCount bars c.line stretch < (stretchBars stretch).length

instance (c : Candidate) (bars : BarMap) (direction : ℚ) (stretch : ℤ × ℤ) : Decidable (c.Unbroken bars direction stretch) :=
  inferInstanceAs (Decidable (∀ bar ∈ stretchBars stretch, _))

instance (c : Candidate) (bars : BarMap) (direction : ℚ) (stretch : ℤ × ℤ) : Decidable (c.Holds bars direction stretch) :=
  inferInstanceAs (Decidable (_ ∧ _))

/-- What `trend_line_inspect` says of the line. -/
def Candidate.look (c : Candidate) (bars : BarMap) (direction : ℚ) (stretch : ℤ × ℤ) : Bool × ℕ :=
  trendLineInspect c.line.1 c.line.2 stretch.1 stretch.2 c.other direction bars (1 / 5)

theorem length_range (s e : ℤ) : (Int.range s e).length = (e - s).toNat := by simp [Int.range]

theorem range_append {m : ℤ} (hs : s ≤ m) (he : m ≤ e) : Int.range s e = Int.range s m ++ Int.range m e := by
  have hlen : (e - s).toNat = (m - s).toNat + (e - m).toNat := by omega
  rw [Int.range, hlen, List.range_add, List.map_append, List.map_map, Int.range, Int.range]
  congr 1
  refine List.map_congr_left fun r _ => ?_
  simp only [Function.comp_apply, Nat.cast_add]
  omega

theorem stretchBars_of_lt {stretch : ℤ × ℤ} (h : stretch.2 < stretch.1) : stretchBars stretch = [] := by
  rw [List.eq_nil_iff_length_eq_zero, length_range]
  omega

/-- The bars before a stretch, its own, and those after it. -/
theorem stretchBars_split (hfirst : whole.1 ≤ own.1) (hown : own.1 ≤ own.2) (hlast : own.2 ≤ whole.2) :
    stretchBars whole = Int.range whole.1 own.1 ++ stretchBars own ++ Int.range (own.2 + 1) (whole.2 + 1) := by
  rw [← range_append hfirst (by omega), ← range_append (by omega) (by omega)]

theorem sum_eq_countP {f : ℤ → ℕ} {p : ℤ → Bool} {l : List ℤ} (h : ∀ i ∈ l, f i = if p i then 1 else 0) :
    (l.map f).sum = l.countP p := by
  induction l with
  | nil => rfl
  | cons i l ih =>
    obtain ⟨hi, hl⟩ := List.forall_mem_cons.1 h
    rw [List.map_cons, List.sum_cons, ih hl, List.countP_cons, hi, Nat.add_comm]

/-- A fifth of the bars at most touches the line. -/
theorem ratio_lt_iff {score total : ℕ} (h : 0 < total) : (score : ℚ) / total < 1 / 5 ↔ 5 * score < total := by
  have htotal : (0 : ℚ) < total := by exact_mod_cast h
  rw [div_lt_div_iff₀ htotal (by norm_num), one_mul, mul_comm]
  exact_mod_cast Iff.rfl

theorem reached_le (c : Candidate) (bars : BarMap) (d : ℚ) (stretch : ℤ × ℤ) :
    c.reached bars d stretch ≤ touchCount bars c.line stretch :=
  (List.takeWhile_sublist _).countP_le

theorem reached_eq {c : Candidate} {stretch : ℤ × ℤ} (h : c.Unbroken bars d stretch) :
    c.reached bars d stretch = touchCount bars c.line stretch := by
  rw [Candidate.reached, List.takeWhile_eq_self_iff.2 (by simpa [Candidate.Unbroken] using h), touchCount]

theorem touchCount_mono (line : (ℤ × ℚ) × (ℤ × ℚ)) (hfirst : whole.1 ≤ own.1) (hown : own.1 ≤ own.2)
    (hlast : own.2 ≤ whole.2) : touchCount bars line own ≤ touchCount bars line whole := by
  rw [touchCount, touchCount, stretchBars_split hfirst hown hlast]
  exact ((List.sublist_append_right _ _).trans (List.sublist_append_left _ _)).countP_le

section look
variable {c : Candidate} {stretch : ℤ × ℤ} (h : c.line.1.1 ≠ c.line.2.1) (hd : d = 1 ∨ d = -1)
include h hd

variable (bars stretch) in
theorem run_reached : (BreakLoop.run (inspectBar c.line.1 c.line.2 c.other d bars) (stretchBars stretch) (0, 0)).2.1 =
    c.reached bars d stretch := by
  rw [BreakLoop.run_score, Nat.zero_add, Candidate.reached]
  simp only [isSome_inspectBar h hd]
  refine sum_eq_countP fun bar hbar => inspectBar_getD h hd ?_
  simpa using List.mem_takeWhile_imp hbar

variable (bars stretch) in
theorem run_unbroken : (BreakLoop.run (inspectBar c.line.1 c.line.2 c.other d bars) (stretchBars stretch) (0, 0)).1 = true ↔
    c.Unbroken bars d stretch := by
  rw [BreakLoop.run_fst]
  refine forall₂_congr fun bar _ => ?_
  rw [← Option.isSome_iff_ne_none, isSome_inspectBar h hd]
  simp

theorem look_snd : (c.look bars d stretch).2 = c.reached bars d stretch := by
  rw [Candidate.look, trendLineInspect]
  split
  next hempty => simp [Candidate.reached, stretchBars_of_lt hempty]
  next => exact run_reached bars stretch h hd

theorem look_fst : (c.look bars d stretch).1 = true ↔ c.Holds bars d stretch := by
  rw [Candidate.look, trendLineInspect, Candidate.Holds, ← run_unbroken bars stretch h hd]
  split
  next hempty => simp [stretchBars_of_lt hempty]
  next hfull =>
    have hreached := run_reached bars stretch h hd
    have hunbroken := run_unbroken bars stretch h hd
    have hlen : 0 < (stretchBars stretch).length := by
      rw [length_range]
      omega
    generalize hrun : BreakLoop.run (inspectBar c.line.1 c.line.2 c.other d bars) (stretchBars stretch) (0, 0) = r
      at hreached hunbroken
    cases hr : r.1 with
    | false => simp [hr]
    | true =>
      -- the loop went through, so it counted every bar
      have hok := BreakLoop.run_fst.1 ((congrArg Prod.fst hrun).trans hr)
      have htotal := congrArg Prod.snd (BreakLoop.run_snd 0 0 hok)
      rw [hrun, Nat.zero_add] at htotal
      rw [reached_eq (hunbroken.1 hr)] at hreached
      simp [hr, htotal, hreached, hlen, ← ratio_lt_iff hlen]

end look

/-! ## The rest of the pattern's bars -/

/-- The bars of the pattern outside the stretch show nothing of the line, and are not what makes its touches few. -/
structure NothingUnseen (bars : BarMap) (direction : ℚ) (own whole : ℤ × ℤ) (c : Candidate) : Prop where
  passes : ∀ bar ∈ stretchBars whole, bar ∉ stretchBars own → Passes bars direction c.line bar
  share : c.Unbroken bars direction own → 5 * touchCount bars c.line own < (stretchBars whole).length →
    c.Holds bars direction own

section whole
variable {c : Candidate} (h : c.line.1.1 ≠ c.line.2.1) (hd : d = 1 ∨ d = -1) (hfirst : whole.1 ≤ own.1)
  (hlast : own.2 ≤ whole.2)
include h hd hfirst hlast

/-- What is broken on its own bars is broken on more. -/
theorem look_of_broken (hbroken : ¬ c.Unbroken bars d own) :
    (c.look bars d own).1 = false ∧ (c.look bars d whole).1 = false := by
  rw [Bool.eq_false_iff, Bool.eq_false_iff, ne_eq, ne_eq, look_fst h hd, look_fst h hd]
  refine ⟨fun hholds => hbroken hholds.1, fun hholds => hbroken fun bar hbar => hholds.1 bar ?_⟩
  rw [mem_stretchBars] at hbar ⊢
  omega

variable (hown : own.1 ≤ own.2)
include hown

/-- **The longer look sees no more.** -/
theorem look_of_nothingUnseen (hother : c.other ∈ stretchBars own) (hunseen : NothingUnseen bars d own whole c) :
    c.look bars d whole = c.look bars d own := by
  have hsplit := stretchBars_split hfirst hown hlast
  have hpass : ∀ bar ∈ stretchBars whole, bar ∉ stretchBars own →
      inspectBar c.line.1 c.line.2 c.other d bars bar = some 0 := fun bar hbar hout =>
    inspectBar_of_passes h hd (hunseen.passes bar hbar hout) fun heq => hout (heq ▸ hother)
  have hpre : ∀ bar ∈ Int.range whole.1 own.1, inspectBar c.line.1 c.line.2 c.other d bars bar = some 0 := by
    intro bar hbar
    have hrange := Int.mem_range_iff.1 hbar
    exact hpass bar (mem_stretchBars.2 (by omega)) (fun hin => by have := mem_stretchBars.1 hin; omega)
  have hpost : ∀ bar ∈ Int.range (own.2 + 1) (whole.2 + 1), inspectBar c.line.1 c.line.2 c.other d bars bar = some 0 := by
    intro bar hbar
    have hrange := Int.mem_range_iff.1 hbar
    exact hpass bar (mem_stretchBars.2 (by omega)) (fun hin => by have := mem_stretchBars.1 hin; omega)
  obtain ⟨hvalid, hscore⟩ := BreakLoop.run_clear (stretchBars own) hpre hpost
  rw [← hsplit, run_reached bars whole h hd, run_reached bars own h hd] at hscore
  rw [← hsplit] at hvalid
  have hunbroken : c.Unbroken bars d whole ↔ c.Unbroken bars d own := by
    rw [← run_unbroken bars whole h hd, ← run_unbroken bars own h hd, hvalid]
  have hholds : c.Holds bars d whole ↔ c.Holds bars d own := by
    constructor
    · rintro ⟨hwhole, hfew⟩
      have hok := hunbroken.1 hwhole
      rw [← reached_eq hwhole, hscore, reached_eq hok] at hfew
      exact hunseen.share hok hfew
    · rintro ⟨hok, hfew⟩
      refine ⟨hunbroken.2 hok, ?_⟩
      rw [← reached_eq (hunbroken.2 hok), hscore, reached_eq hok]
      rw [length_range] at hfew ⊢
      omega
  refine Prod.ext ?_ ?_
  · rw [Bool.eq_iff_iff, look_fst h hd, look_fst h hd, hholds]
  · rw [look_snd h hd, look_snd h hd, hscore]

variable (bars) in
theorem look_snd_le : (c.look bars d own).2 ≤ touchCount bars c.line whole ∧
    (c.look bars d whole).2 ≤ touchCount bars c.line whole := by
  rw [look_snd h hd, look_snd h hd]
  exact ⟨(reached_le c bars d own).trans (touchCount_mono c.line hfirst hown hlast), reached_le c bars d whole⟩

end whole

/-! ## The original's line -/

theorem inspectBar_pine (h : p1.1 ≠ p2.1) (hget : bars.get i = some (ohlc i)) :
    Pine.inspectBar ⟨p1, p2⟩ other d ohlc i = inspectBar p1 p2 other d bars i := by
  simp [Pine.inspectBar, getPrice_eq h, inspectBar, hget, linePriceAtBarIndex_eq h]

theorem inspectLine_pine (h : p1.1 ≠ p2.1) (hse : s ≤ e) (hdense : ∀ i, s ≤ i → i ≤ e → bars.get i = some (ohlc i)) :
    Pine.inspectLine ⟨p1, p2⟩ s e other d ohlc = trendLineInspect p1 p2 s e other d bars (1 / 5) := by
  have hbars : ∀ i ∈ Int.range s (e + 1), Pine.inspectBar ⟨p1, p2⟩ other d ohlc i = inspectBar p1 p2 other d bars i := by
    intro i hi
    obtain ⟨hi, hi'⟩ := Int.mem_range_iff.1 hi
    exact inspectBar_pine h (hdense i hi (by omega))
  rw [Pine.inspectLine, BreakLoop.run_congr hbars (0, 0), trendLineInspect, if_neg (not_lt.2 hse)]
  generalize BreakLoop.run (inspectBar p1 p2 other d bars) (Int.range s (e + 1)) (0, 0) = r
  by_cases htotal : r.2.2 = 0
  · simp [htotal, Pine.quo]
  · simp [Pine.quo, htotal, Nat.pos_of_ne_zero htotal]

/-! ## The best line -/

/-- The lines through two of the points. -/
def candidates : List (ℤ × ℚ) → List Candidate
  | [a, b, c] => [⟨(a, c), b.1⟩, ⟨(a, b), c.1⟩, ⟨(b, c), a.1⟩]
  | [a, b] => [⟨(a, b), a.1⟩]
  | _ => []

/-- The line touches more bars than each of the others, as far as the loop goes. -/
def Tops (cs : List Candidate) (bars : BarMap) (direction : ℚ) (stretch : ℤ × ℤ) (c : Candidate) : Prop :=
  ∀ rival ∈ cs, rival ≠ c → rival.reached bars direction stretch < c.reached bars direction stretch

/-- The line holds and tops the others, or is the last one and no other does both. -/
def Picked (cs : List Candidate) (bars : BarMap) (direction : ℚ) (stretch : ℤ × ℤ) (c : Candidate) : Prop :=
  c.Holds bars direction stretch ∧ (Tops cs bars direction stretch c ∨
    cs.getLast? = some c ∧ ∀ rival ∈ cs, rival ≠ c → rival.Holds bars direction stretch → ¬ Tops cs bars direction stretch rival)

/-- The line holds on its own bars and touches more of them than any other touches of all bars of the pattern. -/
structure Wins (cs : List Candidate) (bars : BarMap) (direction : ℚ) (own whole : ℤ × ℤ) (c : Candidate) : Prop where
  unseen : NothingUnseen bars direction own whole c
  holds : c.Holds bars direction own
  most : ∀ rival ∈ cs, rival ≠ c → touchCount bars rival.line whole < touchCount bars c.line own

/-- What the rest of the pattern's bars shows of the side's lines does not change which line is picked. -/
def SideSeen (cs : List Candidate) (bars : BarMap) (direction : ℚ) (own whole : ℤ × ℤ) : Prop :=
  (∀ c ∈ cs, NothingUnseen bars direction own whole c) ∨ ∃ c ∈ cs, Wins cs bars direction own whole c

/-- Every line is broken on its own bars. -/
def Hopeless (cs : List Candidate) (bars : BarMap) (direction : ℚ) (own : ℤ × ℤ) : Prop :=
  ∀ c ∈ cs, ¬ c.Unbroken bars direction own

/-- What the original finds of a side (`ok`, and the line of pick `n`) beside what the port finds of it (`mine`). -/
structure SideFound (cs : List Candidate) (bars : BarMap) (direction : ℚ) (own whole : ℤ × ℤ) (mine : Bool × ℕ × ℕ)
    (ends : ℕ → (ℤ × ℚ) × (ℤ × ℚ)) (ok : Bool) (n : ℕ) : Prop where
  seen : SideSeen cs bars direction own whole → ok = mine.1 ∧ n = mine.2.1
  hopeless : Hopeless cs bars direction own → ok = false ∧ mine.1 = false
  picked : mine.1 = true → ∃ k ∈ cs, Picked cs bars direction own k ∧ k.line = ends mine.2.1

theorem pickBest_eq (r1 r2 r3 : Bool × ℕ) : pickBest r1 r2 r3 =
    if r1.1 = true ∧ r2.2 < r1.2 ∧ r3.2 < r1.2 then (r1.1, 1, r1.2)
    else if r2.1 = true ∧ r1.2 < r2.2 ∧ r3.2 < r2.2 then (r2.1, 2, r2.2)
    else (r3.1, 3, r3.2) := by
  simp only [pickBest, Bool.and_eq_true, decide_eq_true_eq, gt_iff_lt, max_lt_iff]
  split_ifs <;> simp_all

theorem pickBest_cases {r1 r2 r3 : Bool × ℕ} (h : (pickBest r1 r2 r3).1 = true) :
    ((pickBest r1 r2 r3).2.1 = 1 ∧ r1.1 = true ∧ r2.2 < r1.2 ∧ r3.2 < r1.2) ∨
      ((pickBest r1 r2 r3).2.1 = 2 ∧ r2.1 = true ∧ r1.2 < r2.2 ∧ r3.2 < r2.2) ∨
        ((pickBest r1 r2 r3).2.1 = 3 ∧ r3.1 = true ∧ ¬ (r1.1 = true ∧ r2.2 < r1.2 ∧ r3.2 < r1.2) ∧
          ¬ (r2.1 = true ∧ r1.2 < r2.2 ∧ r3.2 < r2.2)) := by
  rw [pickBest_eq] at h ⊢
  by_cases h1 : r1.1 = true ∧ r2.2 < r1.2 ∧ r3.2 < r1.2
  · rw [if_pos h1]
    exact .inl ⟨rfl, h1⟩
  by_cases h2 : r2.1 = true ∧ r1.2 < r2.2 ∧ r3.2 < r2.2
  · rw [if_neg h1, if_pos h2]
    exact .inr (.inl ⟨rfl, h2⟩)
  · rw [if_neg h1, if_neg h2] at h ⊢
    exact .inr (.inr ⟨rfl, h, h1, h2⟩)

/-! ## One side -/

section side
variable {cs : List Candidate} (hcs : ∀ k ∈ cs, k.line.1.1 ≠ k.line.2.1 ∧ k.other ∈ stretchBars own)
  (hd : d = 1 ∨ d = -1) (hfirst : whole.1 ≤ own.1) (hown : own.1 ≤ own.2) (hlast : own.2 ≤ whole.2)
include hcs hd hfirst hown hlast

theorem look_of_wins {k : Candidate} (hk : k ∈ cs) (hwins : Wins cs bars d own whole k) {stretch : ℤ × ℤ}
    (hstretch : stretch = own ∨ stretch = whole) : k.look bars d stretch = (true, touchCount bars k.line own) ∧
      ∀ rival ∈ cs, rival ≠ k → (rival.look bars d stretch).2 < touchCount bars k.line own := by
  obtain ⟨hne, hother⟩ := hcs k hk
  have hlook : k.look bars d own = (true, touchCount bars k.line own) :=
    Prod.ext ((look_fst hne hd).2 hwins.holds) ((look_snd hne hd).trans (reached_eq hwins.holds.1))
  have hwhole := look_of_nothingUnseen hne hd hfirst hlast hown hother hwins.unseen
  have hmost : ∀ rival ∈ cs, rival ≠ k → (rival.look bars d own).2 < touchCount bars k.line own ∧
      (rival.look bars d whole).2 < touchCount bars k.line own := by
    intro rival hrival hdiff
    have hle := look_snd_le bars (hcs rival hrival).1 hd hfirst hlast hown
    have hlt := hwins.most rival hrival hdiff
    exact ⟨hle.1.trans_lt hlt, hle.2.trans_lt hlt⟩
  rcases hstretch with rfl | rfl
  · exact ⟨hlook, fun rival hrival hdiff => (hmost rival hrival hdiff).1⟩
  · exact ⟨hwhole.trans hlook, fun rival hrival hdiff => (hmost rival hrival hdiff).2⟩

end side

theorem line_endpoints (pick : ℕ) (a b c : ℤ × ℚ) :
    (⟨(endpointsFromPickThree pick a b c).1, (endpointsFromPickThree pick a b c).2⟩ : Pine.Line) =
      if pick = 1 then ⟨a, c⟩ else if pick = 2 then ⟨a, b⟩ else ⟨b, c⟩ := by
  unfold endpointsFromPickThree
  split_ifs <;> rfl

section three
variable (hab : a.1 < b.1) (hbc : b.1 < c.1)
include hab hbc

theorem candidates_three : ∀ k ∈ candidates [a, b, c], k.line.1.1 ≠ k.line.2.1 ∧ k.other ∈ stretchBars (a.1, c.1) := by
  simp only [candidates, List.mem_cons, List.not_mem_nil, or_false, forall_eq_or_imp, forall_eq, mem_stretchBars]
  omega

theorem candidates_three_ne : (Candidate.mk (a, c) b.1) ≠ ⟨(a, b), c.1⟩ ∧ (Candidate.mk (a, c) b.1) ≠ ⟨(b, c), a.1⟩ ∧
    (Candidate.mk (a, b) c.1) ≠ ⟨(b, c), a.1⟩ := by
  simp only [ne_eq, Candidate.mk.injEq, not_and]
  omega

end three

/-- The three lines, looked at on the same bars. -/
def bestOfThree (a b c : ℤ × ℚ) (bars : BarMap) (direction : ℚ) (stretch : ℤ × ℤ) : Bool × ℕ × ℕ :=
  pickBest ((Candidate.mk (a, c) b.1).look bars direction stretch) ((Candidate.mk (a, b) c.1).look bars direction stretch)
    ((Candidate.mk (b, c) a.1).look bars direction stretch)

theorem inspectPickBestThreePointLine_eq (hab : a.1 < b.1) (hbc : b.1 < c.1) :
    inspectPickBestThreePointLine a b c d bars (1 / 5) = bestOfThree a b c bars d (a.1, c.1) := by
  have hmin : min (min a.1 b.1) c.1 = a.1 := by omega
  have hmax : max (max a.1 b.1) c.1 = c.1 := by omega
  rw [inspectPickBestThreePointLine, hmin, hmax]
  rfl

theorem inspect_three_pine (hab : a.1 < b.1) (hbc : b.1 < c.1) (hse : s ≤ e)
    (hdense : ∀ i, s ≤ i → i ≤ e → bars.get i = some (ohlc i)) : Pine.inspect [a, b, c] s e d ohlc = some
      ((bestOfThree a b c bars d (s, e)).1, ⟨(endpointsFromPickThree (bestOfThree a b c bars d (s, e)).2.1 a b c).1,
        (endpointsFromPickThree (bestOfThree a b c bars d (s, e)).2.1 a b c).2⟩) := by
  rw [Pine.inspect, inspectLine_pine (hab.trans hbc).ne hse hdense, inspectLine_pine hab.ne hse hdense,
    inspectLine_pine hbc.ne hse hdense]
  simp only [bestOfThree, Candidate.look]
  generalize trendLineInspect a c s e b.1 d bars (1 / 5) = r1
  generalize trendLineInspect a b s e c.1 d bars (1 / 5) = r2
  generalize trendLineInspect b c s e a.1 d bars (1 / 5) = r3
  obtain ⟨ok1, s1⟩ := r1
  obtain ⟨ok2, s2⟩ := r2
  obtain ⟨ok3, s3⟩ := r3
  simp only [pickBest, line_endpoints]

section best
variable (hab : a.1 < b.1) (hbc : b.1 < c.1) (hd : d = 1 ∨ d = -1)
include hab hbc hd

theorem bestOfThree_hopeless (hfirst : first ≤ a.1) (hlast : c.1 ≤ last)
    (hbroken : Hopeless (candidates [a, b, c]) bars d (a.1, c.1)) :
    (bestOfThree a b c bars d (first, last)).1 = false ∧ (bestOfThree a b c bars d (a.1, c.1)).1 = false := by
  have hfalse : ∀ k ∈ candidates [a, b, c], (k.look bars d (a.1, c.1)).1 = false ∧
      (k.look bars d (first, last)).1 = false := fun k hk =>
    look_of_broken (candidates_three hab hbc k hk).1 hd hfirst hlast (hbroken k hk)
  simp only [candidates, List.mem_cons, List.not_mem_nil, or_false, forall_eq_or_imp, forall_eq] at hfalse
  simp [bestOfThree, pickBest_eq, hfalse]

/-- **Both looks pick the same line.** -/
theorem bestOfThree_whole (hfirst : first ≤ a.1) (hlast : c.1 ≤ last)
    (hseen : SideSeen (candidates [a, b, c]) bars d (a.1, c.1) (first, last)) :
    (bestOfThree a b c bars d (first, last)).1 = (bestOfThree a b c bars d (a.1, c.1)).1 ∧
      (bestOfThree a b c bars d (first, last)).2.1 = (bestOfThree a b c bars d (a.1, c.1)).2.1 := by
  have hcs := candidates_three hab hbc
  have hown : a.1 ≤ c.1 := (hab.trans hbc).le
  obtain ⟨hmem1, hmem2, hmem3⟩ : Candidate.mk (a, c) b.1 ∈ candidates [a, b, c] ∧
      Candidate.mk (a, b) c.1 ∈ candidates [a, b, c] ∧ Candidate.mk (b, c) a.1 ∈ candidates [a, b, c] := by
    simp [candidates]
  obtain ⟨hne12, hne13, hne23⟩ := candidates_three_ne hab hbc
  rcases hseen with hunseen | ⟨k, hk, hwins⟩
  · have heq : ∀ k ∈ candidates [a, b, c], k.look bars d (first, last) = k.look bars d (a.1, c.1) := fun k hk =>
      look_of_nothingUnseen (hcs k hk).1 hd hfirst hlast hown (hcs k hk).2 (hunseen k hk)
    rw [bestOfThree, heq _ hmem1, heq _ hmem2, heq _ hmem3]
    exact ⟨rfl, rfl⟩
  · have hlook := fun (stretch : ℤ × ℤ) (hstretch : stretch = (a.1, c.1) ∨ stretch = (first, last)) =>
      look_of_wins hcs hd hfirst hown hlast hk hwins hstretch
    -- the winner is picked on either stretch
    obtain ⟨n, hpick⟩ : ∃ n, ∀ stretch, stretch = (a.1, c.1) ∨ stretch = (first, last) →
        bestOfThree a b c bars d stretch = (true, n, touchCount bars k.line (a.1, c.1)) := by
      simp only [candidates, List.mem_cons, List.not_mem_nil, or_false] at hk
      rcases hk with rfl | rfl | rfl
      · refine ⟨1, fun stretch hstretch => ?_⟩
        obtain ⟨heq, hrivals⟩ := hlook stretch hstretch
        have h2 := hrivals _ hmem2 hne12.symm
        have h3 := hrivals _ hmem3 hne13.symm
        simp [bestOfThree, pickBest_eq, heq, h2, h3]
      · refine ⟨2, fun stretch hstretch => ?_⟩
        obtain ⟨heq, hrivals⟩ := hlook stretch hstretch
        have h1 := hrivals _ hmem1 hne12
        have h3 := hrivals _ hmem3 hne23.symm
        simp [bestOfThree, pickBest_eq, heq, h1, h1.not_gt, h3]
      · refine ⟨3, fun stretch hstretch => ?_⟩
        obtain ⟨heq, hrivals⟩ := hlook stretch hstretch
        have h1 := hrivals _ hmem1 hne13
        have h2 := hrivals _ hmem2 hne23
        simp [bestOfThree, pickBest_eq, heq, h1.not_gt, h2.not_gt]
    rw [hpick _ (.inl rfl), hpick _ (.inr rfl)]
    exact ⟨rfl, rfl⟩

theorem bestOfThree_picked (h : (bestOfThree a b c bars d (a.1, c.1)).1 = true) : ∃ k ∈ candidates [a, b, c],
    Picked (candidates [a, b, c]) bars d (a.1, c.1) k ∧
      k.line = endpointsFromPickThree (bestOfThree a b c bars d (a.1, c.1)).2.1 a b c := by
  have hcs := candidates_three hab hbc
  obtain ⟨hne12, hne13, hne23⟩ := candidates_three_ne hab hbc
  have hfst : ∀ k ∈ candidates [a, b, c], (k.look bars d (a.1, c.1)).1 = true ↔ k.Holds bars d (a.1, c.1) := fun k hk =>
    look_fst (hcs k hk).1 hd
  have hsnd : ∀ k ∈ candidates [a, b, c], (k.look bars d (a.1, c.1)).2 = k.reached bars d (a.1, c.1) := fun k hk =>
    look_snd (hcs k hk).1 hd
  simp only [candidates, List.mem_cons, List.not_mem_nil, or_false, forall_eq_or_imp, forall_eq] at hfst hsnd
  have hcases := pickBest_cases h
  rw [hfst.1, hfst.2.1, hfst.2.2, hsnd.1, hsnd.2.1, hsnd.2.2] at hcases
  rcases hcases with ⟨hpick, hholds, h2, h3⟩ | ⟨hpick, hholds, h1, h3⟩ | ⟨hpick, hholds, h1, h2⟩
  · refine ⟨⟨(a, c), b.1⟩, by simp [candidates], ⟨hholds, .inl ?_⟩, ?_⟩
    · simp [Tops, candidates, h2, h3]
    · rw [bestOfThree, hpick]
      rfl
  · refine ⟨⟨(a, b), c.1⟩, by simp [candidates], ⟨hholds, .inl ?_⟩, ?_⟩
    · simp [Tops, candidates, h1, h3]
    · rw [bestOfThree, hpick]
      rfl
  · refine ⟨⟨(b, c), a.1⟩, by simp [candidates], ⟨hholds, .inr ⟨rfl, ?_⟩⟩, ?_⟩
    · simp only [candidates, List.mem_cons, List.not_mem_nil, or_false, forall_eq_or_imp, forall_eq, Tops]
      refine ⟨fun _ hok htops => h1 ⟨hok, htops.2.1 hne12.symm, htops.2.2 hne13.symm⟩,
        fun _ hok htops => h2 ⟨hok, htops.1 hne12, htops.2.2 hne23.symm⟩, fun hne => absurd rfl hne⟩
    · rw [bestOfThree, hpick]
      rfl

theorem sideFound_three (hfirst : first ≤ a.1) (hlast : c.1 ≤ last) : SideFound (candidates [a, b, c]) bars d (a.1, c.1)
    (first, last) (bestOfThree a b c bars d (a.1, c.1)) (endpointsFromPickThree · a b c)
    (bestOfThree a b c bars d (first, last)).1 (bestOfThree a b c bars d (first, last)).2.1 where
  seen := bestOfThree_whole hab hbc hd hfirst hlast
  hopeless := bestOfThree_hopeless hab hbc hd hfirst hlast
  picked := bestOfThree_picked hab hbc hd

end best

/-! ## Two points -/

section two
variable (hab : a.1 < b.1) (hd : d = 1 ∨ d = -1)
include hab

theorem inspectTwoPointLine_eq : inspectTwoPointLine a b d bars (1 / 5) =
    (Candidate.mk (a, b) a.1).look bars d (a.1, b.1) := by
  rw [inspectTwoPointLine, min_eq_left hab.le, max_eq_right hab.le]
  rfl

theorem inspect_two_pine (hse : s ≤ e) (hdense : ∀ i, s ≤ i → i ≤ e → bars.get i = some (ohlc i)) :
    Pine.inspect [a, b] s e d ohlc = some (((Candidate.mk (a, b) a.1).look bars d (s, e)).1, ⟨a, b⟩) := by
  rw [Pine.inspect, inspectLine_pine hab.ne hse hdense]
  rfl

include hd

theorem sideFound_two (hfirst : first ≤ a.1) (hlast : b.1 ≤ last) : SideFound (candidates [a, b]) bars d (a.1, b.1)
    (first, last)
    (((Candidate.mk (a, b) a.1).look bars d (a.1, b.1)).1, 1, ((Candidate.mk (a, b) a.1).look bars d (a.1, b.1)).2)
    (fun _ => (a, b)) ((Candidate.mk (a, b) a.1).look bars d (first, last)).1 1 where
  seen := by
    intro hseen
    have hunseen : NothingUnseen bars d (a.1, b.1) (first, last) ⟨(a, b), a.1⟩ := by
      simp only [SideSeen, candidates, List.mem_singleton, forall_eq, exists_eq_left] at hseen
      exact hseen.elim id Wins.unseen
    have hother : a.1 ∈ stretchBars (a.1, b.1) := mem_stretchBars.2 ⟨le_rfl, hab.le⟩
    exact ⟨congrArg Prod.fst (look_of_nothingUnseen hab.ne hd hfirst hlast hab.le hother hunseen), rfl⟩
  hopeless hbroken := (look_of_broken hab.ne hd hfirst hlast (hbroken _ (List.mem_singleton_self _))).symm
  picked := by
    intro h
    refine ⟨_, List.mem_singleton_self _, ⟨(look_fst hab.ne hd).1 h, .inl ?_⟩, rfl⟩
    simp [Tops, candidates]

end two

end Qtss.ChartPatterns
