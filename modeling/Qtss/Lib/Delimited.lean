import Mathlib.Data.List.Basic
/-!
# Texts that can be read back

`enc` can be read back at `a` where `Ends` says how the rest of the text may start: a text that has the code of `a` in
front has no other reading (`Reads`). A code up to a mark that is not in it (`append_cons_inj`) and one of symbols of a
kind (`append_inj_of_all`) can be read back, and so can lists of codes that can: one after the other (`flatMap_inj`), or
with separators (`Closes.join_inj`).
-/
namespace Delimited

variable {α β : Type*} {enc : α → List β} {P : α → Prop} {Ends : List β → Prop} {x y s t : List β} {d : β} {a b : α}

/-- Whatever follows, as long as it starts as `Ends` says. -/
def Reads (enc : α → List β) (P : α → Prop) (Ends : List β → Prop) (a : α) : Prop :=
  ∀ b s t, P b → Ends s → Ends t → enc a ++ s = enc b ++ t → a = b ∧ s = t

/-- At its end, or with a symbol of the kind. -/
def StartsWith (p : β → Prop) (s : List β) : Prop := ∀ c ∈ s.head?, p c

@[simp] theorem startsWith_nil {p : β → Prop} : StartsWith p [] := by simp [StartsWith]

@[simp] theorem startsWith_cons {p : β → Prop} : StartsWith p (d :: s) ↔ p d := by simp [StartsWith]

/-- A text is read up to the first mark. -/
theorem append_cons_inj (hx : d ∉ x) (hy : d ∉ y) (h : x ++ d :: s = y ++ d :: t) : x = y ∧ s = t := by
  induction x generalizing y with
  | nil =>
    cases y with
    | nil => exact ⟨rfl, List.tail_eq_of_cons_eq h⟩
    | cons c y =>
      obtain ⟨rfl, -⟩ := List.cons.inj h
      simp at hy
  | cons c x ih =>
    cases y with
    | nil =>
      obtain ⟨rfl, -⟩ := List.cons.inj h
      simp at hx
    | cons c' y =>
      obtain ⟨rfl, hrest⟩ := List.cons.inj h
      obtain ⟨rfl, hst⟩ := ih (List.not_mem_of_not_mem_cons hx) (List.not_mem_of_not_mem_cons hy) hrest
      exact ⟨rfl, hst⟩

/-- A text of one kind of symbols is read up to the first one that is not of that kind. -/
theorem append_inj_of_all {p : β → Prop} (hx : ∀ c ∈ x, p c) (hy : ∀ c ∈ y, p c) (hs : StartsWith (¬ p ·) s)
    (ht : StartsWith (¬ p ·) t) (h : x ++ s = y ++ t) : x = y ∧ s = t := by
  induction x generalizing y with
  | nil =>
    cases y with
    | nil => exact ⟨rfl, h⟩
    | cons c y =>
      rw [List.nil_append] at h
      rw [h] at hs
      exact absurd (hy c List.mem_cons_self) (hs c rfl)
  | cons c x ih =>
    cases y with
    | nil =>
      rw [List.nil_append] at h
      rw [← h] at ht
      exact absurd (hx c List.mem_cons_self) (ht c rfl)
    | cons c' y =>
      obtain ⟨rfl, hrest⟩ := List.cons.inj h
      obtain ⟨rfl, hst⟩ := ih (fun z hz => hx z (List.mem_cons_of_mem _ hz))
        (fun z hz => hy z (List.mem_cons_of_mem _ hz)) hrest
      exact ⟨rfl, hst⟩

/-! ## Lists of codes -/

/-- The codes of the symbols one after the other, up to the mark. -/
theorem flatMap_inj (hcode : ∀ a b s t, enc a ++ s = enc b ++ t → a = b ∧ s = t)
    (hmark : ∀ a s t, enc a ++ s ≠ d :: t) {l m : List α} (h : l.flatMap enc ++ d :: s = m.flatMap enc ++ d :: t) :
    l = m ∧ s = t := by
  induction l generalizing m with
  | nil =>
    cases m with
    | nil => exact ⟨rfl, List.tail_eq_of_cons_eq h⟩
    | cons b m =>
      rw [List.flatMap_cons, List.append_assoc] at h
      exact absurd h.symm (hmark _ _ _)
  | cons a l ih =>
    cases m with
    | nil =>
      rw [List.flatMap_cons, List.append_assoc] at h
      exact absurd h (hmark _ _ _)
    | cons b m =>
      rw [List.flatMap_cons, List.flatMap_cons, List.append_assoc, List.append_assoc] at h
      obtain ⟨rfl, hrest⟩ := hcode _ _ _ _ h
      obtain ⟨rfl, hst⟩ := ih hrest
      exact ⟨rfl, hst⟩

/-- The parts with a separator between them. -/
def join (sep : β) : List (List β) → List β
  | [] => []
  | x :: xs => x ++ xs.flatMap (sep :: ·)

theorem mem_join {sep : β} {xs : List (List β)} (h : d ∈ join sep xs) : d = sep ∨ ∃ x ∈ xs, d ∈ x := by
  cases xs with
  | nil => simp [join] at h
  | cons x xs =>
    rcases List.mem_append.1 h with h | h
    · exact .inr ⟨x, List.mem_cons_self, h⟩
    · obtain ⟨y, hy, h⟩ := List.mem_flatMap.1 h
      exact (List.mem_cons.1 h).imp_right fun h => ⟨y, List.mem_cons_of_mem _ hy, h⟩

/-- Two parts may as well be one. -/
theorem join_append_pair (sep : β) (xs : List (List β)) (x y : List β) :
    join sep (xs ++ [x ++ sep :: y]) = join sep (xs ++ [x, y]) := by
  cases xs with
  | nil => simp [join]
  | cons z xs => simp [join]

/-- What is left of a join after its first part, with the mark that closes it. -/
def joinRest (sep close : β) (xs : List (List β)) (s : List β) : List β := xs.flatMap (sep :: ·) ++ close :: s

variable {sep close : β}

theorem join_cons_close (x : List β) (xs : List (List β)) (s : List β) :
    join sep (x :: xs) ++ close :: s = x ++ joinRest sep close xs s := by rw [join, joinRest, List.append_assoc]

theorem joinRest_cons (x : List β) (xs : List (List β)) (s : List β) :
    joinRest sep close (x :: xs) s = sep :: (x ++ joinRest sep close xs s) := by
  rw [joinRest, joinRest, List.flatMap_cons, List.append_assoc, List.cons_append]

/-- `sep` and `close` end a code, and no code starts with `close`. -/
structure Closes (enc : α → List β) (P : α → Prop) (Ends : List β → Prop) (sep close : β) : Prop where
  sep_ne_close : sep ≠ close
  ends_sep : ∀ s, Ends (sep :: s)
  ends_close : ∀ s, Ends (close :: s)
  not_start : ∀ a s t, P a → enc a ++ s ≠ close :: t

theorem Closes.ends_joinRest (hc : Closes enc P Ends sep close) (xs : List (List β)) (s : List β) :
    Ends (joinRest sep close xs s) := by
  cases xs with
  | nil => exact hc.ends_close _
  | cons x xs =>
    rw [joinRest_cons]
    exact hc.ends_sep _

theorem Closes.joinRest_inj (hc : Closes enc P Ends sep close) {as bs : List α} (has : ∀ a ∈ as, Reads enc P Ends a)
    (hbs : ∀ b ∈ bs, P b) (h : joinRest sep close (as.map enc) s = joinRest sep close (bs.map enc) t) :
    as = bs ∧ s = t := by
  induction as generalizing bs with
  | nil =>
    cases bs with
    | nil => exact ⟨rfl, List.tail_eq_of_cons_eq h⟩
    | cons b bs =>
      rw [List.map_cons, joinRest_cons] at h
      exact absurd (List.head_eq_of_cons_eq h).symm hc.sep_ne_close
  | cons a as ih =>
    rw [List.map_cons, joinRest_cons] at h
    cases bs with
    | nil => exact absurd (List.head_eq_of_cons_eq h) hc.sep_ne_close
    | cons b bs =>
      rw [List.map_cons, joinRest_cons] at h
      have ha := has a List.mem_cons_self
      have hb := hbs b List.mem_cons_self
      obtain ⟨rfl, hrest⟩ := ha b _ _ hb (hc.ends_joinRest _ _) (hc.ends_joinRest _ _) (List.tail_eq_of_cons_eq h)
      obtain ⟨rfl, hst⟩ := ih (fun x hx => has x (List.mem_cons_of_mem _ hx))
        (fun x hx => hbs x (List.mem_cons_of_mem _ hx)) hrest
      exact ⟨rfl, hst⟩

/-- **Lists with separators**, up to the mark that closes them. -/
theorem Closes.join_inj (hc : Closes enc P Ends sep close) {as bs : List α} (has : ∀ a ∈ as, P a ∧ Reads enc P Ends a)
    (hbs : ∀ b ∈ bs, P b) (h : join sep (as.map enc) ++ close :: s = join sep (bs.map enc) ++ close :: t) :
    as = bs ∧ s = t := by
  cases as with
  | nil =>
    cases bs with
    | nil => exact ⟨rfl, List.tail_eq_of_cons_eq h⟩
    | cons b bs =>
      rw [List.map_cons, join_cons_close] at h
      exact absurd h.symm (hc.not_start b _ _ (hbs b List.mem_cons_self))
  | cons a as =>
    obtain ⟨hPa, ha⟩ := has a List.mem_cons_self
    cases bs with
    | nil =>
      rw [List.map_cons, join_cons_close] at h
      exact absurd h (hc.not_start a _ _ hPa)
    | cons b bs =>
      rw [List.map_cons, List.map_cons, join_cons_close, join_cons_close] at h
      have hb := hbs b List.mem_cons_self
      obtain ⟨rfl, hrest⟩ := ha b _ _ hb (hc.ends_joinRest _ _) (hc.ends_joinRest _ _) h
      obtain ⟨rfl, hst⟩ := hc.joinRest_inj (fun x hx => (has x (List.mem_cons_of_mem _ hx)).2)
        (fun x hx => hbs x (List.mem_cons_of_mem _ hx)) hrest
      exact ⟨rfl, hst⟩

end Delimited
