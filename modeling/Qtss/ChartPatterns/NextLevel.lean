import Qtss.ChartPatterns.RunSeries
/-
# The next zigzag level (`qtss-chart-patterns/src/zigzag.rs:346`)

| here | there |
| --- | --- |
| `NextState`           | `next_level`, `temp_bullish` and `temp_bearish` of the loop |
| `temp`, `setTemp`     | the buffer of a side |
| `nextStep`            | the body of the loop (:354-422) |
| `nextLevelFromZigzag` | :346 |

The bridge of a change of direction adds the buffered pivot of the new side first and that of the old
side second, whichever came first in the source. They come in this order all the same: the pivots read
since the last major one alternate, beginning on the new side, and none of them is doubled, so
none goes beyond the one two back and the buffer of the new side keeps the very first of them
(`Temps.first`).
-/

namespace Qtss.ChartPatterns

structure NextState (P R : Type*) where
  next : ZigzagLite P R
  tempBullish : Option (ZigzagPivot P R)
  tempBearish : Option (ZigzagPivot P R)

variable {P R : Type*}

def NextState.temp (s : NextState P R) (dir : ℤ) : Option (ZigzagPivot P R) :=
  if 0 < dir then s.tempBullish else s.tempBearish

def NextState.setTemp (s : NextState P R) (dir : ℤ) (p : ZigzagPivot P R) : NextState P R :=
  if 0 < dir then { s with tempBullish := some p } else { s with tempBearish := some p }

def pivotsChronological (z : ZigzagLite P R) : List (ZigzagPivot P R) := z.pivots.reverse

section order
variable [LinearOrder P] (f : Ratios P R)

/-- zigzag.rs:354-422. -/
def nextStep (s : NextState P R) (p : ZigzagPivot P R) : NextState P R :=
  let lp := { p with level := p.level + 1 }
  let dir := lp.dir
  match s.next.pivots with
  | [] => if dir.natAbs = 2 then ⟨s.next.addNewPivot f lp, none, none⟩ else s
  | front :: rest =>
    let newDir := dir.sign
    let value := lp.point.price
    if dir.natAbs = 2 then
      if front.dir.sign = newDir then
        -- "keep the more extreme pivot; otherwise try inserting opposite temp as a bridge"
        if beyond dir value front.point.price then
          ⟨{ s.next with pivots := rest }.addNewPivot f lp, none, none⟩
        else
          match s.temp (-newDir) with
          | some tp => ⟨(s.next.addNewPivot f tp).addNewPivot f lp, none, none⟩
          | none => s
      else
        let bridged := match s.temp newDir, s.temp (-newDir) with
          | some tf, some ts =>
            if beyond newDir tf.point.price value then (s.next.addNewPivot f tf).addNewPivot f ts
            else s.next
          | _, _ => s.next
        ⟨bridged.addNewPivot f lp, none, none⟩
    else
      match s.temp newDir with
      | some existing =>
        if beyond dir value existing.point.price then s.setTemp newDir lp else s
      | none => s.setTemp newDir lp

/-- zigzag.rs:347-351. -/
def NextState.start (source : ZigzagLite P R) : NextState P R where
  next := { ZigzagLite.new source.length source.numberOfPivots 0 with level := source.level + 1 }
  tempBullish := none
  tempBearish := none

/-- zigzag.rs:346. -/
def nextLevelFromZigzag (source : ZigzagLite P R) : ZigzagLite P R :=
  let s := (pivotsChronological source).foldl (nextStep f) (.start source)
  if s.next.pivots.length ≥ source.pivots.length then { s.next with pivots := [] } else s.next

end order

/-! ## The buffers -/

variable {s : NextState P R} {dir dir' : ℤ} {a p q t u : ZigzagPivot P R}
  {l ones newer pre : List (ZigzagPivot P R)}

@[simp] theorem temp_sign : s.temp dir.sign = s.temp dir := by simp [NextState.temp]

@[simp] theorem setTemp_sign : s.setTemp dir.sign p = s.setTemp dir p := by simp [NextState.setTemp]

@[simp] theorem next_setTemp : (s.setTemp dir p).next = s.next := by
  unfold NextState.setTemp
  split <;> rfl

@[simp] theorem temp_setTemp_self : (s.setTemp dir p).temp dir = some p := by
  unfold NextState.temp NextState.setTemp
  split <;> rfl

theorem temp_setTemp_of_ne (h : ¬ (0 < dir ↔ 0 < dir')) : (s.setTemp dir p).temp dir' = s.temp dir' := by
  unfold NextState.temp NextState.setTemp
  by_cases hd : 0 < dir
  · have hd' : ¬ 0 < dir' := fun h' => h ⟨fun _ => h', fun _ => hd⟩
    simp only [if_pos hd, if_neg hd']
  · have hd' : 0 < dir' := by
      by_contra h'
      exact h ⟨fun h => absurd h hd, fun h => absurd h h'⟩
    simp only [if_neg hd, if_pos hd']

section scan
variable [LinearOrder P]

/-- The buffers after the pivots `ones`, none of them doubled, which follow the major pivot `p`. -/
inductive Temps (s : NextState P R) (p : ZigzagPivot P R) : List (ZigzagPivot P R) → Prop
  | none (h : s.temp (-p.dir) = none) (h' : s.temp p.dir = none) : Temps s p []
  | first (t q : ZigzagPivot P R) (newer : List (ZigzagPivot P R)) (h : s.temp (-p.dir) = some t)
      (hcar : Carries t q)
      (hmost : ∀ x ∈ newer ++ [q], x.dir.sign = -p.dir.sign →
        beyond x.dir x.point.price t.point.price = false)
      (h' : ∀ u, s.temp p.dir = some u → ∃ x ∈ newer, Carries u x ∧ x.dir.sign = p.dir.sign) :
      Temps s p (newer ++ [q])

/-- The state of the loop after the pivots `l`, newest first. -/
structure Scanned (l : List (ZigzagPivot P R)) (s : NextState P R) : Prop where
  chained : Chained s.next.pivots
  carried : ∀ n ∈ s.next.pivots, ∃ q ∈ l, Carries n q
  temps : ∀ front ∈ s.next.pivots.head?, ∃ ones p pre, l = ones ++ p :: pre ∧ Carries front p
    ∧ (∀ q ∈ ones, q.dir.natAbs ≠ 2) ∧ Temps s p ones

variable {f : Ratios P R} {z : ZigzagLite P R}

/-- A pivot that follows the newest one goes in front of it. -/
theorem add_carrying (hz : Chained z.pivots) (hp : p.dir ≠ 0)
    (hfol : ∀ q ∈ z.pivots.head?, Follows p q) :
    Chained (z.addNewPivot f p).pivots
      ∧ (∃ p', (z.addNewPivot f p).pivots.head? = some p' ∧ Carries p' p)
      ∧ ∀ n ∈ (z.addNewPivot f p).pivots, Carries n p ∨ n ∈ z.pivots := by
  obtain ⟨p', hcar, hadd, hchain⟩ := addNewPivot_of_follows (f := f) hz hp hfol
  rw [hadd]
  refine ⟨hchain.pushFront, ⟨p', head_pushFront z p', hcar⟩, ?_⟩
  intro n hn
  rcases List.mem_cons.1 (List.mem_of_mem_take hn) with rfl | hn
  · exact .inl hcar
  · exact .inr hn

theorem neg_pos_iff_of_ne (h : dir ≠ 0) : ¬ (0 < dir ↔ 0 < -dir) := by omega

omit [LinearOrder P] in
theorem temp_congr (h : dir.sign = dir'.sign) : s.temp dir = s.temp dir' := by
  rw [← temp_sign, h, temp_sign]

theorem sign_opposite (h : dir ≠ 0) (h' : dir' ≠ 0) (hne : dir.sign ≠ dir'.sign) :
    dir.sign = -dir'.sign := by
  rcases lt_or_gt_of_ne h with hd | hd <;> rcases lt_or_gt_of_ne h' with hd' | hd' <;>
    simp_all [Int.sign_eq_neg_one_iff_neg.2, Int.sign_eq_one_iff_pos.2]

theorem beyond_congr {x y : P} (h : dir.sign = dir'.sign) : beyond dir x y = beyond dir' x y := by
  rw [← beyond_sign, h, beyond_sign]

/-- **The order of the buffers**: the pivots since the major one begin on the other side. -/
theorem Chained.after_major (h : Chained (newer ++ q :: p :: pre)) :
    q.dir.sign = -p.dir.sign ∧ p.point.index ≤ q.point.index
      ∧ ∀ x ∈ newer, q.point.index ≤ x.point.index := by
  have hmid : Follows q p := by
    have hfol := (List.isChain_append.1 h.follows).2.1
    exact (List.isChain_cons_cons.1 hfol).1
  refine ⟨hmid.1, hmid.2, ?_⟩
  intro x hx
  exact (List.pairwise_append.1 h.sorted).2.2 x hx q (List.mem_cons_self ..)

/-- The first pivot after the major one opens the buffer of its side. -/
theorem temps_opening {lp : ZigzagPivot P R} (hl : Chained (a :: p :: pre)) (h : s.temp (-p.dir) = none)
    (h' : s.temp p.dir = none) (hlp : Carries lp a) :
    s.temp a.dir = none ∧ Temps (s.setTemp a.dir lp) p [a] := by
  have hpsigned : p.dir ≠ 0 := hl.signed p (by simp)
  have hopp : a.dir.sign = (-p.dir).sign := by
    have := (List.isChain_cons_cons.1 hl.follows).1.1
    simpa using this
  refine ⟨by rw [temp_congr hopp, h], Temps.first lp a [] ?_ hlp ?_ ?_⟩
  · rw [← temp_congr hopp, temp_setTemp_self]
  · intro x hx _
    rw [List.nil_append, List.mem_singleton] at hx
    rw [hx, hlp.1, beyond_self]
  · intro u hu
    rw [temp_setTemp_of_ne ?_, h'] at hu
    · simp at hu
    · have hpos := pos_iff_of_sign hopp
      have := neg_pos_iff_of_ne hpsigned
      tauto

/-- On the side of the major pivot the buffer holds some later pivot, whichever. -/
theorem temps_same_side {t lp : ZigzagPivot P R} {s' : NextState P R} (hpsigned : p.dir ≠ 0)
    (hside : a.dir.sign = p.dir.sign) (hlp : Carries lp a) (hcar : Carries t q)
    (hmost : ∀ x ∈ newer ++ [q], x.dir.sign = -p.dir.sign → beyond x.dir x.point.price t.point.price = false)
    (h' : ∀ u, s.temp p.dir = some u → ∃ x ∈ newer, Carries u x ∧ x.dir.sign = p.dir.sign)
    (ht' : s'.temp (-p.dir) = some t) (hu' : ∀ u, s'.temp p.dir = some u → Carries u lp ∨ s.temp p.dir = some u) :
    Temps s' p ((a :: newer) ++ [q]) := by
  refine Temps.first t q (a :: newer) ht' hcar ?_ ?_
  · intro x hx hxside
    rcases List.mem_cons.1 hx with rfl | hx
    · have := Int.sign_eq_zero_iff_zero.not.2 hpsigned
      omega
    · exact hmost x hx hxside
  · intro u hu
    rcases hu' u hu with hu | hu
    · exact ⟨a, List.mem_cons_self .., hu.trans hlp, hside⟩
    · obtain ⟨x, hx, hux⟩ := h' u hu
      exact ⟨x, List.mem_cons_of_mem a hx, hux⟩

/-- On the other side a pivot that is not doubled is not beyond the one in the buffer. -/
theorem not_beyond_buffer {t : ZigzagPivot P R} (hl : Chained (a :: (newer ++ [q] ++ p :: pre)))
    (ha : a.dir.natAbs ≠ 2) (hopp : a.dir.sign = -p.dir.sign)
    (hmost : ∀ x ∈ newer ++ [q], x.dir.sign = -p.dir.sign → beyond x.dir x.point.price t.point.price = false) :
    beyond a.dir a.point.price t.point.price = false := by
  have hpsigned : p.dir ≠ 0 := hl.signed p (by simp)
  have hl' : Chained ((a :: newer) ++ q :: p :: pre) := by simpa using hl
  obtain ⟨hq, -, -⟩ := hl'.after_major
  rcases newer with _ | ⟨b, newer⟩
  · have hfol := (List.isChain_cons_cons.1 hl.follows).1.1
    have := Int.sign_eq_zero_iff_zero.not.2 hpsigned
    omega
  · obtain ⟨c, rest, hc⟩ : ∃ c rest, newer ++ [q] = c :: rest :=
      List.exists_cons_of_ne_nil (by simp)
    have hl₃ : Chained (a :: b :: c :: (rest ++ p :: pre)) := by
      rw [List.cons_append, hc] at hl
      exact hl
    have hab := (List.isChain_cons_cons.1 hl₃.follows).1.1
    have hbc := (List.isChain_cons_cons.1 hl₃.tail.follows).1.1
    have hca : c.dir.sign = a.dir.sign := by omega
    have hac := hl₃.singles a b c ⟨[], rest ++ p :: pre, by simp⟩ ha
    have hct := hmost c (by rw [List.cons_append, hc]; simp) (hca.trans hopp)
    exact beyond_trans hac (by rw [← beyond_congr hca, hct])

/-- A pivot that is not doubled goes into the buffer of its side, or is dropped for a better one. -/
theorem temps_single {lp : ZigzagPivot P R} (hl : Chained (a :: (ones ++ p :: pre)))
    (ht : Temps s p ones) (ha : a.dir.natAbs ≠ 2) (hlp : Carries lp a) :
    (s.temp a.dir = none → Temps (s.setTemp a.dir lp) p (a :: ones))
      ∧ ∀ e, s.temp a.dir = some e →
        if beyond a.dir a.point.price e.point.price then Temps (s.setTemp a.dir lp) p (a :: ones)
        else Temps s p (a :: ones) := by
  have hsigned : a.dir ≠ 0 := hl.signed a (List.mem_cons_self ..)
  have hpsigned : p.dir ≠ 0 := hl.signed p (by simp)
  cases ht with
  | none h h' =>
    obtain ⟨hempty, hset⟩ := temps_opening hl h h' hlp
    exact ⟨fun _ => hset, fun e he => by simp [hempty] at he⟩
  | first t q newer h hcar hmost h' =>
    rw [← List.cons_append]
    by_cases hside : a.dir.sign = p.dir.sign
    · have hset : Temps (s.setTemp a.dir lp) p ((a :: newer) ++ [q]) := by
        refine temps_same_side hpsigned hside hlp hcar hmost h' ?_ ?_
        · rw [temp_setTemp_of_ne ?_, h]
          have hpos := pos_iff_of_sign hside
          have := neg_pos_iff_of_ne hpsigned
          tauto
        · intro u hu
          rw [← temp_congr hside, temp_setTemp_self] at hu
          obtain rfl := Option.some.inj hu
          exact .inl (Carries.refl _)
      refine ⟨fun _ => hset, fun e _ => ?_⟩
      split
      · exact hset
      · exact temps_same_side hpsigned hside hlp hcar hmost h' h fun u hu => .inr hu
    · -- the buffer of the other side holds the first pivot
      have hopp : a.dir.sign = -p.dir.sign := sign_opposite hsigned hpsigned hside
      have hbuf : s.temp a.dir = some t := by rw [temp_congr (hopp.trans (Int.sign_neg _).symm), h]
      have hnot := not_beyond_buffer hl ha hopp hmost
      refine ⟨fun hnone => by simp [hbuf] at hnone, fun e he => ?_⟩
      rw [hbuf] at he
      obtain rfl := Option.some.inj he
      rw [hnot, if_neg Bool.false_ne_true]
      refine Temps.first t q (a :: newer) h hcar ?_ ?_
      · intro x hx hxside
        rcases List.mem_cons.1 hx with rfl | hx
        · exact hnot
        · exact hmost x hx hxside
      · intro u hu
        obtain ⟨x, hx, hux⟩ := h' u hu
        exact ⟨x, List.mem_cons_of_mem a hx, hux⟩

/-! ## One pivot -/

/-- A doubled pivot has been added as the new major one. -/
theorem scanned_major {z : ZigzagLite P R} (hz : Chained z.pivots)
    (hcar : ∀ n ∈ z.pivots, ∃ q ∈ a :: l, Carries n q) (ha : a.dir ≠ 0)
    {lp : ZigzagPivot P R} (hlp : Carries lp a) (hfol : ∀ q ∈ z.pivots.head?, Follows lp q) :
    Scanned (a :: l) ⟨z.addNewPivot f lp, none, none⟩ := by
  have hlp0 : lp.dir ≠ 0 := by
    intro h
    have hs := hlp.2
    rw [h, Int.sign_zero] at hs
    exact ha (Int.sign_eq_zero_iff_zero.1 hs.symm)
  obtain ⟨hchain, ⟨p', hp', hcp'⟩, hmem⟩ := add_carrying (f := f) hz hlp0 hfol
  refine ⟨hchain, ?_, ?_⟩
  · intro n hn
    rcases hmem n hn with hn | hn
    · exact ⟨a, List.mem_cons_self .., hn.trans hlp⟩
    · exact hcar n hn
  · intro front hfront
    rw [hp'] at hfront
    obtain rfl := Option.some.inj hfront
    refine ⟨[], a, l, rfl, hcp'.trans hlp, by simp, Temps.none ?_ ?_⟩ <;> simp [NextState.temp]

/-- A pivot that is not doubled changes the buffers only. -/
theorem scanned_single {s' : NextState P R} {front : ZigzagPivot P R}
    (hs : Scanned (ones ++ p :: pre) s) (hhead : s.next.pivots.head? = some front)
    (hfront : Carries front p) (hones : ∀ q ∈ ones, q.dir.natAbs ≠ 2) (ha : a.dir.natAbs ≠ 2)
    (hnext : s'.next = s.next) (ht : Temps s' p (a :: ones)) :
    Scanned (a :: (ones ++ p :: pre)) s' := by
  refine ⟨hnext ▸ hs.chained, ?_, ?_⟩
  · intro n hn
    rw [hnext] at hn
    obtain ⟨q, hq, hnq⟩ := hs.carried n hn
    exact ⟨q, List.mem_cons_of_mem a hq, hnq⟩
  · intro front' hfront'
    rw [hnext, hhead] at hfront'
    obtain rfl := Option.some.inj hfront'
    refine ⟨a :: ones, p, pre, rfl, hfront, ?_, ht⟩
    intro q hq
    rcases List.mem_cons.1 hq with rfl | hq
    · exact ha
    · exact hones q hq

/-- The bridge: `t` after the newest pivot, and `z` still holds pivots of the source. -/
theorem add_bridge {z : ZigzagLite P R} (hz : Chained z.pivots)
    (hcar : ∀ n ∈ z.pivots, ∃ x ∈ l, Carries n x) (hq : q ∈ l) (hq0 : q.dir ≠ 0)
    (ht : Carries t q) (hfol : ∀ y ∈ z.pivots.head?, Follows t y) :
    Chained (z.addNewPivot f t).pivots ∧ (∀ n ∈ (z.addNewPivot f t).pivots, ∃ x ∈ l, Carries n x)
      ∧ ∀ y ∈ (z.addNewPivot f t).pivots.head?, Carries y q := by
  have ht0 : t.dir ≠ 0 := by
    intro h
    have hs := ht.2
    rw [h, Int.sign_zero] at hs
    exact hq0 (Int.sign_eq_zero_iff_zero.1 hs.symm)
  obtain ⟨hchain, ⟨t', ht', hct'⟩, hmem⟩ := add_carrying (f := f) hz ht0 hfol
  refine ⟨hchain, ?_, ?_⟩
  · intro n hn
    rcases hmem n hn with hn | hn
    · exact ⟨q, hq, hn.trans ht⟩
    · exact hcar n hn
  · intro y hy
    rw [ht'] at hy
    obtain rfl := Option.some.inj hy
    exact hct'.trans ht

section major
variable {front lp : ZigzagPivot P R} {rest : List (ZigzagPivot P R)}
  (hl : Chained (a :: (ones ++ p :: pre))) (hs : Scanned (ones ++ p :: pre) s)
  (hpiv : s.next.pivots = front :: rest) (hfront : Carries front p) (ht : Temps s p ones)
  (hlp : Carries lp a)

include hs in
theorem carried_before : ∀ n ∈ s.next.pivots, ∃ q ∈ a :: (ones ++ p :: pre), Carries n q := by
  intro n hn
  obtain ⟨q, hq, hnq⟩ := hs.carried n hn
  exact ⟨q, List.mem_cons_of_mem a hq, hnq⟩

include hl in
theorem index_le : p.point.index ≤ a.point.index :=
  (List.pairwise_cons.1 hl.sorted).1 p (by simp)

include hl hs hpiv hfront in
/-- The bridge to `q`, the first pivot since the major one. -/
theorem first_bridge (hones : ones = newer ++ [q]) (hct : Carries t q) :
    Chained (s.next.addNewPivot f t).pivots
      ∧ (∀ n ∈ (s.next.addNewPivot f t).pivots, ∃ x ∈ a :: (ones ++ p :: pre), Carries n x)
      ∧ ∀ y ∈ (s.next.addNewPivot f t).pivots.head?, Carries y q := by
  subst hones
  have hl' : Chained ((a :: newer) ++ q :: p :: pre) := by simpa using hl
  obtain ⟨hqp, hpq, -⟩ := hl'.after_major
  refine add_bridge hs.chained (carried_before hs) (by simp) (hl.signed q (by simp)) hct ?_
  intro y hy
  rw [hpiv, List.head?_cons] at hy
  obtain rfl := Option.some.inj hy
  exact hct.follows hfront ⟨hqp, hpq⟩

include hl hs hpiv hfront hlp

/-- A doubled pivot beyond the newest one takes its place. -/
theorem scanned_replace (hside : a.dir.sign = p.dir.sign) :
    Scanned (a :: (ones ++ p :: pre))
      ⟨{ s.next with pivots := rest }.addNewPivot f lp, none, none⟩ := by
  have hz := hs.chained
  rw [hpiv] at hz
  refine scanned_major hz.tail ?_ (hl.signed a (List.mem_cons_self ..)) hlp ?_
  · intro n hn
    refine carried_before hs n ?_
    rw [hpiv]
    exact List.mem_cons_of_mem front hn
  · intro q hq
    obtain ⟨hq1, hq2⟩ := (List.isChain_cons.1 hz.follows).1 q hq
    refine ⟨?_, ?_⟩
    · rw [hlp.2, hside, ← hfront.2, hq1]
    · rw [hlp.1]
      rw [hfront.1] at hq2
      exact hq2.trans (index_le hl)

/-- A doubled pivot on the other side goes on top. -/
theorem scanned_turn (hopp : a.dir.sign = -p.dir.sign) :
    Scanned (a :: (ones ++ p :: pre)) ⟨s.next.addNewPivot f lp, none, none⟩ := by
  refine scanned_major hs.chained (carried_before hs)
    (hl.signed a (List.mem_cons_self ..)) hlp ?_
  intro y hy
  rw [hpiv, List.head?_cons] at hy
  obtain rfl := Option.some.inj hy
  exact hlp.follows hfront ⟨hopp, index_le hl⟩

/-- A doubled pivot of the same side that is not beyond the newest one: the bridge is the first pivot
since the major one. -/
theorem scanned_same (hones : ones = newer ++ [q]) (hct : Carries t q)
    (hside : a.dir.sign = p.dir.sign) :
    Scanned (a :: (ones ++ p :: pre))
      ⟨(s.next.addNewPivot f t).addNewPivot f lp, none, none⟩ := by
  obtain ⟨hz, hcz, hfz⟩ := first_bridge (f := f) hl hs hpiv hfront hones hct
  subst hones
  have hl' : Chained ((a :: newer) ++ q :: p :: pre) := by simpa using hl
  obtain ⟨hqp, -, hqs⟩ := hl'.after_major
  refine scanned_major hz hcz (hl.signed a (List.mem_cons_self ..)) hlp ?_
  intro y hy
  exact hlp.follows (hfz y hy) ⟨by omega, hqs a (List.mem_cons_self ..)⟩

/-- **The double bridge**: the new side's pivot `q` is the first since the major one, the old side's
`x` comes after it. -/
theorem scanned_bridged {x : ZigzagPivot P R} (hones : ones = newer ++ [q]) (hct : Carries t q)
    (hx : x ∈ newer) (hux : Carries u x) (hxp : x.dir.sign = p.dir.sign)
    (hopp : a.dir.sign = -p.dir.sign) :
    Scanned (a :: (ones ++ p :: pre))
      ⟨((s.next.addNewPivot f t).addNewPivot f u).addNewPivot f lp, none, none⟩ := by
  obtain ⟨hz, hcz, hfz⟩ := first_bridge (f := f) hl hs hpiv hfront hones hct
  subst hones
  have hl' : Chained ((a :: newer) ++ q :: p :: pre) := by simpa using hl
  obtain ⟨hqp, -, hqs⟩ := hl'.after_major
  obtain ⟨hz', hcz', hfz'⟩ := add_bridge (f := f) (l := a :: (newer ++ [q] ++ p :: pre)) hz hcz
    (by simp [hx]) (hl.signed x (by simp [hx])) hux (by
      intro y hy
      exact hux.follows (hfz y hy) ⟨by omega, hqs x (List.mem_cons_of_mem a hx)⟩)
  refine scanned_major hz' hcz' (hl.signed a (List.mem_cons_self ..)) hlp ?_
  intro y hy
  refine hlp.follows (hfz' y hy) ⟨by omega, ?_⟩
  exact (List.pairwise_cons.1 hl.sorted).1 x (by simp [hx])

end major

/-- **One pivot of the source.** -/
theorem scanned_step (hl : Chained (a :: l)) (hs : Scanned l s) :
    Scanned (a :: l) (nextStep f s a) := by
  obtain ⟨lp, hlp⟩ : ∃ lp : ZigzagPivot P R, lp = { a with level := a.level + 1 } := ⟨_, rfl⟩
  have hcar : Carries lp a := by rw [hlp]; exact ⟨rfl, rfl⟩
  have hsigned : a.dir ≠ 0 := hl.signed a (List.mem_cons_self ..)
  unfold nextStep
  simp only [← hlp]
  rcases hpiv : s.next.pivots with _ | ⟨front, rest⟩
  · have hkeep : ∀ n ∈ s.next.pivots, ∃ q ∈ a :: l, Carries n q := by simp [hpiv]
    simp only
    split
    · exact scanned_major hs.chained hkeep hsigned hcar (by simp [hpiv])
    · refine ⟨hs.chained, hkeep, ?_⟩
      intro front hfront
      simp [hpiv] at hfront
  · have hhead : s.next.pivots.head? = some front := by rw [hpiv, List.head?_cons]
    obtain ⟨ones, p, pre, rfl, hfront, hones, ht⟩ := hs.temps front hhead
    have hp0 : p.dir ≠ 0 := hl.signed p (by simp)
    simp only
    by_cases htwo : a.dir.natAbs = 2
    · rw [if_pos htwo, hfront.2]
      by_cases hside : p.dir.sign = a.dir.sign
      · rw [if_pos hside]
        split
        · exact scanned_replace hl hs hpiv hfront hcar hside.symm
        · cases ht with
          | none h h' =>
            -- the pivot after the major one is on the other side
            have := (List.isChain_cons_cons.1 hl.follows).1.1
            have := Int.sign_eq_zero_iff_zero.not.2 hp0
            omega
          | first t q newer h hct hmost h' =>
            have htemp : s.temp (-a.dir.sign) = some t := by
              rw [← Int.sign_neg, temp_sign, temp_congr (show Int.sign _ = Int.sign (-p.dir) by simp [hside]), h]
            rw [htemp]
            exact scanned_same hl hs hpiv hfront hcar rfl hct hside.symm
      · rw [if_neg hside]
        have hopp : a.dir.sign = -p.dir.sign := sign_opposite hsigned hp0 (Ne.symm hside)
        have hnew : s.temp a.dir.sign = s.temp (-p.dir) := by
          rw [temp_sign]
          exact temp_congr (by simp [hopp])
        have hold : s.temp (-a.dir.sign) = s.temp p.dir := by
          rw [hopp, neg_neg, temp_sign]
        rw [hnew, hold]
        cases ht with
        | none h h' =>
          rw [h]
          exact scanned_turn hl hs hpiv hfront hcar hopp
        | first t q newer h hct hmost h' =>
          rw [h]
          rcases hu : s.temp p.dir with _ | u
          · exact scanned_turn hl hs hpiv hfront hcar hopp
          · obtain ⟨x, hx, hux, hxp⟩ := h' u hu
            simp only
            split
            · exact scanned_bridged hl hs hpiv hfront hcar rfl hct hx hux hxp hopp
            · exact scanned_turn hl hs hpiv hfront hcar hopp
    · rw [if_neg htwo]
      obtain ⟨hempty, hfull⟩ := temps_single hl ht htwo hcar
      rw [temp_sign, setTemp_sign]
      rcases he : s.temp a.dir with _ | e
      · exact scanned_single hs hhead hfront hones htwo next_setTemp (hempty he)
      · have hbuf := hfull e he
        simp only
        split
        · rename_i hb
          rw [if_pos hb] at hbuf
          exact scanned_single hs hhead hfront hones htwo next_setTemp hbuf
        · rename_i hb
          rw [if_neg hb] at hbuf
          exact scanned_single hs hhead hfront hones htwo rfl hbuf

/-! ## The levels -/

theorem scanned_foldl (hl : Chained l) (hs : s.next.pivots = []) :
    Scanned l (l.reverse.foldl (nextStep f) s) := by
  induction l with
  | nil =>
    refine ⟨?_, ?_, ?_⟩
    · simpa [hs] using chained_nil
    · simp [hs]
    · simp [hs]
  | cons a l ih =>
    rw [List.reverse_cons, List.foldl_concat]
    exact scanned_step hl (ih hl.tail)

/-- **One level**: its pivots are in order, stand for pivots of the source, and are fewer. -/
theorem nextLevel_spec {source : ZigzagLite P R} (h : Chained source.pivots) :
    Chained (nextLevelFromZigzag f source).pivots
      ∧ (∀ n ∈ (nextLevelFromZigzag f source).pivots, ∃ q ∈ source.pivots, Carries n q)
      ∧ ((nextLevelFromZigzag f source).pivots = []
        ∨ (nextLevelFromZigzag f source).pivots.length < source.pivots.length) := by
  have hscan : Scanned source.pivots ((pivotsChronological source).foldl (nextStep f) (.start source)) :=
    scanned_foldl h rfl
  unfold nextLevelFromZigzag
  generalize (pivotsChronological source).foldl (nextStep f) (.start source) = s at hscan
  by_cases hlen : s.next.pivots.length ≥ source.pivots.length
  · simp only [if_pos hlen]
    exact ⟨chained_nil, by simp, by simp⟩
  · simp only [if_neg hlen]
    exact ⟨hscan.chained, hscan.carried, .inr (not_le.1 hlen)⟩

variable [BoundedOrder P]

end scan

end Qtss.ChartPatterns
