import Mathlib.Data.List.Nodup
import Mathlib.Logic.Function.Basic
import Qtss.Lib.Runs
/-!
# Outboxes

Rows of a table are messages to be posted. Any number of workers claim rows that are pending, each row by one worker, post
each of their rows once and then write down what came of it; a row whose post failed is pending again, unless `limit`
attempts were made. A worker may crash, and what it wants to write down may be lost. It only knows what it is answered: a
message may be taken and the answer lost, and its row is posted again.

Whatever happens (`Inv`, which every step keeps: `Inv.step`), no message is answered as taken twice
(`Inv.taken_le`), so all but one of the times it was taken are times whose answer was lost (`countOf_took`), and none is
posted more often than the limits allow (`Inv.posts_le`).
-/
namespace Outbox
open Runs

variable {κ : Type*}

inductive Status where
  | pending | sending | sent | failed
deriving DecidableEq, Repr

structure Row where
  status : Status
  attempts : ℕ

/-- What came of a post: it was taken; it was taken, and the answer was lost; it was not taken. -/
inductive Reply where
  | taken | lost | refused
deriving DecidableEq, Repr

namespace Reply

def took (r : Reply) : Bool := r ≠ .refused

/-- What the worker is told. -/
def seen (r : Reply) : Bool := r = .taken

def gone (r : Reply) : Bool := r = .lost

/-- Of a message over two channels. -/
def either (a b : Reply) : Reply :=
  if a.seen || b.seen then .taken else if a.took || b.took then .lost else .refused

theorem seen_either (a b : Reply) : (a.either b).seen = (a.seen || b.seen) := by
  cases a <;> cases b <;> rfl

end Reply

/-- Of the posts of some messages, those of which something came. -/
def countOf (l : List (κ × Reply)) (p : κ → Bool) (q : Reply → Bool) : ℕ := l.countP fun m => p m.1 && q m.2

theorem countOf_append (l : List (κ × Reply)) (p : κ → Bool) (q : Reply → Bool) (k : κ) (reply : Reply) :
    countOf (l ++ [(k, reply)]) p q = countOf l p q + if p k && q reply then 1 else 0 := by
  rw [countOf, List.countP_append, List.countP_singleton, countOf]

/-- **A message that was taken** was answered so, or its answer was lost. -/
theorem countOf_took (l : List (κ × Reply)) (p : κ → Bool) :
    countOf l p Reply.took = countOf l p Reply.seen + countOf l p Reply.gone := by
  unfold countOf
  induction l with
  | nil => rfl
  | cons m l ih =>
    obtain ⟨k, reply⟩ := m
    simp only [List.countP_cons, ih]
    cases reply <;> simp [Reply.took, Reply.seen, Reply.gone] <;> omega

/-- What a worker has been told of a row and not written down yet. -/
structure Answer (κ : Type*) where
  key : κ
  reply : Reply
  limit : ℕ

structure State (κ : Type*) where
  row : κ → Option Row
  held : ℕ → List κ
  answered : ℕ → Option (Answer κ)
  /-- What was posted so far, and what came of it. -/
  posts : List (κ × Reply)

inductive Op (κ : Type*) where
  | rest
  | enqueue (k : κ)
  | claim (w : ℕ) (ks : List κ)
  | post (w : ℕ) (k : κ) (reply : Reply) (limit : ℕ)
  | mark (w : ℕ) (written : Bool)
  | drop (w : ℕ)

/-- The limit of a post is at most `N`. -/
def Op.Within (N : ℕ) : Op κ → Prop
  | .post _ _ _ limit => limit ≤ N
  | _ => True

namespace State

def start : State κ := ⟨fun _ => none, fun _ => [], fun _ => none, []⟩

def IsPending (s : State κ) (k : κ) : Prop := ∃ r ∈ s.row k, r.status = .pending

instance decidableIsPending (s : State κ) (k : κ) : Decidable (s.IsPending k) := by
  unfold IsPending
  cases s.row k with
  | none => exact isFalse (by simp)
  | some r => exact decidable_of_iff (r.status = .pending) (by simp)

def setHeld (s : State κ) (w : ℕ) (ks : List κ) : State κ := { s with held := Function.update s.held w ks }

def setAnswered (s : State κ) (w : ℕ) (a : Option (Answer κ)) : State κ :=
  { s with answered := Function.update s.answered w a }

def addPost (s : State κ) (k : κ) (reply : Reply) : State κ := { s with posts := s.posts ++ [(k, reply)] }

section fields
variable {s : State κ} {w w' : ℕ} {k : κ} {ks : List κ} {a : Option (Answer κ)} {reply : Reply}

@[simp] theorem setHeld_row : (s.setHeld w ks).row = s.row := rfl

@[simp] theorem setHeld_held : (s.setHeld w ks).held w' = if w' = w then ks else s.held w' := by
  simp only [setHeld, Function.update_apply]

@[simp] theorem setHeld_answered : (s.setHeld w ks).answered = s.answered := rfl

@[simp] theorem setHeld_posts : (s.setHeld w ks).posts = s.posts := rfl

@[simp] theorem setAnswered_row : (s.setAnswered w a).row = s.row := rfl

@[simp] theorem setAnswered_held : (s.setAnswered w a).held = s.held := rfl

@[simp] theorem setAnswered_answered : (s.setAnswered w a).answered w' = if w' = w then a else s.answered w' := by
  simp only [setAnswered, Function.update_apply]

@[simp] theorem setAnswered_posts : (s.setAnswered w a).posts = s.posts := rfl

@[simp] theorem addPost_row : (s.addPost k reply).row = s.row := rfl

@[simp] theorem addPost_held : (s.addPost k reply).held = s.held := rfl

@[simp] theorem addPost_answered : (s.addPost k reply).answered = s.answered := rfl

@[simp] theorem addPost_posts : (s.addPost k reply).posts = s.posts ++ [(k, reply)] := rfl

end fields

variable [DecidableEq κ]

def setRow (s : State κ) (k : κ) (r : Row) : State κ := { s with row := Function.update s.row k (some r) }

/-- One attempt more for the rows. -/
def beginAttempts (s : State κ) (ks : List κ) : State κ :=
  { s with row := fun k => if k ∈ ks then (s.row k).map fun r => ⟨.sending, r.attempts + 1⟩ else s.row k }

/-- After a post. -/
def outcome (r : Row) (a : Answer κ) : Row :=
  { r with status := if a.reply.seen then .sent else if a.limit ≤ r.attempts then .failed else .pending }

/-- What came of a post is written down. -/
def record (s : State κ) (a : Answer κ) : State κ :=
  match s.row a.key with
  | some r => s.setRow a.key (outcome r a)
  | none => s

def step (s : State κ) : Op κ → State κ
  | .rest => s
  | .enqueue k => if s.row k = none then s.setRow k ⟨.pending, 0⟩ else s
  | .claim w ks => if ks.Nodup ∧ ∀ k ∈ ks, s.IsPending k then (s.beginAttempts ks).setHeld w ks else s
  | .post w k reply limit =>
    if k ∈ s.held w ∧ s.answered w = none then
      ((s.setHeld w ((s.held w).erase k)).addPost k reply).setAnswered w (some ⟨k, reply, limit⟩)
    else s
  | .mark w written =>
    match s.answered w with
    | some a => if written then (s.setAnswered w none).record a else s.setAnswered w none
    | none => s
  | .drop w => (s.setHeld w []).setAnswered w none

/-- How often the message was posted. -/
def postsOf (s : State κ) (k : κ) : ℕ := s.posts.countP (·.1 = k)

/-- With at most `N` attempts for each row. -/
structure Inv (N : ℕ) (s : State κ) : Prop where
  sending : ∀ w, ∀ k ∈ s.held w, ∃ r, s.row k = some r ∧ r.status = .sending ∧ s.postsOf k < r.attempts
  waiting : ∀ w a, s.answered w = some a →
    a.limit ≤ N ∧ (∃ r, s.row a.key = some r ∧ r.status = .sending) ∧ ((a.key, .taken) ∈ s.posts → a.reply = .taken)
  exclusive : ∀ w w' k, k ∈ s.held w → k ∈ s.held w' → w = w'
  nodup : ∀ w, (s.held w).Nodup
  /-- A row that was posted is in nobody's hand but its worker's. -/
  apart : ∀ w a, s.answered w = some a →
    (∀ w', a.key ∉ s.held w') ∧ ∀ w' a', s.answered w' = some a' → a'.key = a.key → w' = w
  posted : ∀ k, 0 < s.postsOf k → ∃ r, s.row k = some r
  counted : ∀ k r, s.row k = some r → s.postsOf k ≤ r.attempts ∧ r.attempts ≤ N
  pending : ∀ k r, s.row k = some r → r.status = .pending → r.attempts < N
  /-- A message that was answered as taken has no later post, -/
  final : s.posts.Pairwise fun p q => p.2 = .taken → p.1 ≠ q.1
  /-- and nobody is to post it. -/
  delivered : ∀ k, (k, .taken) ∈ s.posts → ¬ s.IsPending k ∧ ∀ w, k ∉ s.held w

section fields
variable {s : State κ} {w w' : ℕ} {k k' : κ} {r : Row} {ks : List κ} {a : Answer κ} {reply : Reply}

@[simp] theorem setRow_row : (s.setRow k r).row k' = if k' = k then some r else s.row k' := by
  simp only [setRow, Function.update_apply]

@[simp] theorem setRow_held : (s.setRow k r).held = s.held := rfl

@[simp] theorem setRow_answered : (s.setRow k r).answered = s.answered := rfl

@[simp] theorem setRow_posts : (s.setRow k r).posts = s.posts := rfl

@[simp] theorem setRow_postsOf : (s.setRow k r).postsOf k' = s.postsOf k' := rfl

@[simp] theorem setHeld_postsOf : (s.setHeld w ks).postsOf k' = s.postsOf k' := rfl

@[simp] theorem setAnswered_postsOf {b : Option (Answer κ)} : (s.setAnswered w b).postsOf k' = s.postsOf k' := rfl

@[simp] theorem addPost_postsOf : (s.addPost k reply).postsOf k' = s.postsOf k' + if k = k' then 1 else 0 := by
  simp only [postsOf, addPost, List.countP_append, List.countP_singleton, decide_eq_true_eq]

@[simp] theorem beginAttempts_row : (s.beginAttempts ks).row k =
    if k ∈ ks then (s.row k).map fun r => ⟨.sending, r.attempts + 1⟩ else s.row k := rfl

@[simp] theorem record_held : (s.record a).held = s.held := by
  unfold record
  split <;> rfl

@[simp] theorem record_answered : (s.record a).answered = s.answered := by
  unfold record
  split <;> rfl

@[simp] theorem record_posts : (s.record a).posts = s.posts := by
  unfold record
  split <;> rfl

theorem record_row (hr : s.row a.key = some r) :
    (s.record a).row k = if k = a.key then some (outcome r a) else s.row k := by
  unfold record
  rw [hr]
  exact setRow_row

theorem isPending_setRow_of_ne (h : k' ≠ k) : (s.setRow k r).IsPending k' ↔ s.IsPending k' := by
  unfold IsPending
  rw [setRow_row, if_neg h]

end fields

variable {N : ℕ} {s : State κ} {w : ℕ} {k : κ} {r : Row} {ks : List κ} {ops : List (Op κ)}

theorem inv_start : (start : State κ).Inv N where
  sending _ _ h := nomatch h
  waiting _ _ h := nomatch h
  exclusive _ _ _ h := nomatch h
  nodup _ := List.nodup_nil
  apart _ _ h := nomatch h
  posted _ h := absurd h (Nat.lt_irrefl 0)
  counted _ _ h := nomatch h
  pending _ _ h := nomatch h
  final := List.Pairwise.nil
  delivered _ h := nomatch h

theorem Inv.postsOf_eq_zero (h : s.Inv N) (hnone : s.row k = none) : s.postsOf k = 0 := by
  by_contra hpos
  obtain ⟨r, hr⟩ := h.posted k (Nat.pos_of_ne_zero hpos)
  rw [hnone] at hr
  cases hr

omit [DecidableEq κ] in
theorem not_isPending_of_sending (hr : s.row k = some r) (hstatus : r.status = .sending) : ¬ s.IsPending k := by
  rintro ⟨r', hr', hpending⟩
  obtain rfl := Option.some.inj (hr.symm.trans hr')
  rw [hstatus] at hpending
  cases hpending

/-- Rows that are held are not pending. -/
theorem Inv.not_held (h : s.Inv N) (hk : s.IsPending k) (w : ℕ) : k ∉ s.held w := by
  intro hheld
  obtain ⟨r, hr, hstatus, -⟩ := h.sending w k hheld
  exact not_isPending_of_sending hr hstatus hk

theorem Inv.not_answered (h : s.Inv N) (hk : s.IsPending k) {a : Answer κ} (ha : s.answered w = some a) : a.key ≠ k := by
  rintro rfl
  obtain ⟨-, ⟨r, hr, hstatus⟩, -⟩ := h.waiting w a ha
  exact not_isPending_of_sending hr hstatus hk

theorem Inv.enqueue (h : s.Inv N) (hN : 0 < N) (hnone : s.row k = none) : (s.setRow k ⟨.pending, 0⟩).Inv N := by
  have hne : ∀ {k' r}, s.row k' = some r → k' ≠ k := by
    rintro k' r hr rfl
    rw [hnone] at hr
    cases hr
  refine ⟨fun w k' hk' => ?_, fun w a ha => ?_, h.exclusive, h.nodup, h.apart, fun k' hk' => ?_, fun k' r hr => ?_,
    fun k' r hr hstatus => ?_, h.final, fun k' hk' => ?_⟩
  · obtain ⟨r, hr, hsending⟩ := h.sending w k' hk'
    exact ⟨r, by rw [setRow_row, if_neg (hne hr), hr], hsending⟩
  · obtain ⟨hlimit, ⟨r, hr, hstatus⟩, htaken⟩ := h.waiting w a ha
    exact ⟨hlimit, ⟨r, by rw [setRow_row, if_neg (hne hr), hr], hstatus⟩, htaken⟩
  · rw [setRow_row]
    split
    · exact ⟨_, rfl⟩
    · exact h.posted k' hk'
  · rw [setRow_row] at hr
    split at hr
    · next hk =>
      obtain rfl := Option.some.inj hr
      rw [hk, setRow_postsOf, h.postsOf_eq_zero hnone]
      exact ⟨Nat.le_refl 0, Nat.zero_le N⟩
    · exact h.counted k' r hr
  · rw [setRow_row] at hr
    split at hr
    · obtain rfl := Option.some.inj hr
      exact hN
    · exact h.pending k' r hr hstatus
  · obtain ⟨hpending, hheld⟩ := h.delivered k' hk'
    obtain ⟨r, hr⟩ := h.posted k' (List.countP_pos_iff.2 ⟨_, hk', by simp⟩)
    exact ⟨fun hp => hpending ((isPending_setRow_of_ne (hne hr)).1 hp), hheld⟩

theorem Inv.claim (h : s.Inv N) (hks : ks.Nodup) (hpending : ∀ k ∈ ks, s.IsPending k) (w : ℕ) :
    ((s.beginAttempts ks).setHeld w ks).Inv N := by
  have hsame : ∀ {k}, k ∉ ks → ((s.beginAttempts ks).setHeld w ks).row k = s.row k := fun hk => if_neg hk
  refine ⟨fun w' k hk => ?_, fun w' a ha => ?_, fun w₁ w₂ k h₁ h₂ => ?_, fun w' => ?_, fun w' a ha => ?_, fun k hk => ?_,
    fun k r hr => ?_, fun k r hr hstatus => ?_, h.final, fun k hk => ?_⟩
  · rw [setHeld_held] at hk
    split at hk
    · obtain ⟨r, hr, -⟩ := hpending k hk
      refine ⟨⟨.sending, r.attempts + 1⟩, ?_, rfl, Nat.lt_succ_of_le (h.counted k r hr).1⟩
      rw [setHeld_row, beginAttempts_row, if_pos hk, show s.row k = some r from hr, Option.map_some]
    · obtain ⟨r, hr, hsending⟩ := h.sending w' k hk
      exact ⟨r, by rw [hsame fun hmem => h.not_held (hpending k hmem) w' hk, hr], hsending⟩
  · obtain ⟨hlimit, ⟨r, hr, hstatus⟩, htaken⟩ := h.waiting w' a ha
    exact ⟨hlimit, ⟨r, by rw [hsame fun hmem => h.not_answered (hpending _ hmem) ha rfl, hr], hstatus⟩, htaken⟩
  · rw [setHeld_held] at h₁ h₂
    split at h₁
    · next hw₁ =>
      split at h₂
      · next hw₂ => rw [hw₁, hw₂]
      · exact absurd h₂ (h.not_held (hpending k h₁) w₂)
    · split at h₂
      · exact absurd h₁ (h.not_held (hpending k h₂) w₁)
      · exact h.exclusive w₁ w₂ k h₁ h₂
  · rw [setHeld_held]
    split
    · exact hks
    · exact h.nodup w'
  · obtain ⟨hheld, hothers⟩ := h.apart w' a ha
    refine ⟨fun w'' => ?_, hothers⟩
    rw [setHeld_held]
    split
    · exact fun hmem => h.not_answered (hpending _ hmem) ha rfl
    · exact hheld w''
  · obtain ⟨r, hr⟩ := h.posted k hk
    rw [setHeld_row, beginAttempts_row, hr]
    split
    · exact ⟨_, rfl⟩
    · exact ⟨r, rfl⟩
  · rw [setHeld_row, beginAttempts_row] at hr
    split at hr
    · next hk =>
      obtain ⟨r₀, hr₀, rfl⟩ := Option.map_eq_some_iff.1 hr
      obtain ⟨r₁, hr₁, hstatus⟩ := hpending k hk
      obtain rfl := Option.some.inj (hr₀.symm.trans hr₁)
      exact ⟨Nat.le_trans (h.counted k r₀ hr₀).1 (Nat.le_succ _), h.pending k r₀ hr₀ hstatus⟩
    · exact h.counted k r hr
  · rw [setHeld_row, beginAttempts_row] at hr
    split at hr
    · obtain ⟨r₀, -, rfl⟩ := Option.map_eq_some_iff.1 hr
      cases hstatus
    · exact h.pending k r hr hstatus
  · obtain ⟨hnot, hheld⟩ := h.delivered k hk
    have hnotin : k ∉ ks := fun hmem => hnot (hpending k hmem)
    constructor
    · unfold IsPending
      rw [hsame hnotin]
      exact hnot
    · intro w'
      rw [setHeld_held]
      split
      · exact hnotin
      · exact hheld w'

/-- Fewer rows are held. -/
theorem Inv.setHeld (h : s.Inv N) (hsub : ks.Sublist (s.held w)) : (s.setHeld w ks).Inv N := by
  have hmem : ∀ {w' k}, k ∈ (s.setHeld w ks).held w' → k ∈ s.held w' := by
    intro w' k hk
    rw [setHeld_held] at hk
    split at hk
    · next hw => exact hw ▸ hsub.subset hk
    · exact hk
  constructor
  · exact fun w' k hk => h.sending w' k (hmem hk)
  · exact h.waiting
  · exact fun w₁ w₂ k h₁ h₂ => h.exclusive w₁ w₂ k (hmem h₁) (hmem h₂)
  · intro w'
    rw [setHeld_held]
    split
    · exact (h.nodup w).sublist hsub
    · exact h.nodup w'
  · exact fun w' a ha => ⟨fun w'' hw'' => (h.apart w' a ha).1 w'' (hmem hw''), (h.apart w' a ha).2⟩
  · exact h.posted
  · exact h.counted
  · exact h.pending
  · exact h.final
  · exact fun k hk => ⟨(h.delivered k hk).1, fun w' hw' => (h.delivered k hk).2 w' (hmem hw')⟩

/-- What a worker was told is lost. -/
theorem Inv.forget (h : s.Inv N) (w : ℕ) : (s.setAnswered w none).Inv N := by
  have hold : ∀ {w' a}, (s.setAnswered w none).answered w' = some a → s.answered w' = some a := by
    intro w' a ha
    rw [setAnswered_answered] at ha
    split at ha
    · cases ha
    · exact ha
  refine ⟨h.sending, fun w' a ha => h.waiting w' a (hold ha), h.exclusive, h.nodup, fun w' a ha => ?_, h.posted, h.counted,
    h.pending, h.final, h.delivered⟩
  obtain ⟨hheld, hothers⟩ := h.apart w' a (hold ha)
  exact ⟨hheld, fun w'' a' ha' => hothers w'' a' (hold ha')⟩

theorem Inv.post (h : s.Inv N) {limit : ℕ} (hlimit : limit ≤ N) (hk : k ∈ s.held w) (reply : Reply) :
    (((s.setHeld w ((s.held w).erase k)).addPost k reply).setAnswered w (some ⟨k, reply, limit⟩)).Inv N := by
  have hless : (s.setHeld w ((s.held w).erase k)).Inv N := h.setHeld List.erase_sublist
  obtain ⟨r, hr, hstatus, hposts⟩ := h.sending w k hk
  have hnew : (k, .taken) ∉ s.posts := fun hmem => (h.delivered k hmem).2 w hk
  -- nobody has the row now but its worker, who has posted it
  have hheld : ∀ w', k ∉ (s.setHeld w ((s.held w).erase k)).held w' := by
    intro w' hw'
    rw [setHeld_held] at hw'
    split at hw'
    · exact (h.nodup w).not_mem_erase hw'
    · next hne => exact hne (h.exclusive w' w k hw' hk)
  have hothers : ∀ w' a, s.answered w' = some a → a.key ≠ k := by
    rintro w' a ha rfl
    exact (h.apart w' a ha).1 w hk
  constructor
  · intro w' k' hk'
    have hne : k ≠ k' := fun heq => hheld w' (heq ▸ hk')
    obtain ⟨r', hr', hsending⟩ := hless.sending w' k' hk'
    refine ⟨r', hr', ?_⟩
    rw [setAnswered_postsOf, addPost_postsOf, if_neg hne]
    exact hsending
  · intro w' a ha
    rw [setAnswered_answered] at ha
    split at ha
    · obtain rfl := Option.some.inj ha
      refine ⟨hlimit, ⟨r, hr, hstatus⟩, fun hmem => ?_⟩
      rcases List.mem_append.1 hmem with hmem | hmem
      · exact absurd hmem hnew
      · exact (congrArg Prod.snd (List.mem_singleton.1 hmem)).symm
    · obtain ⟨hle, hrow, htaken⟩ := h.waiting w' a ha
      refine ⟨hle, hrow, fun hmem => ?_⟩
      rcases List.mem_append.1 hmem with hmem | hmem
      · exact htaken hmem
      · exact absurd (congrArg Prod.fst (List.mem_singleton.1 hmem)) (hothers w' a ha)
  · exact hless.exclusive
  · exact hless.nodup
  · intro w' a ha
    rw [setAnswered_answered] at ha
    split at ha
    · next hw =>
      obtain rfl := Option.some.inj ha
      refine ⟨hheld, fun w'' a' ha' hkey => ?_⟩
      rw [setAnswered_answered] at ha'
      split at ha'
      · next hw' => rw [hw', hw]
      · exact absurd hkey (hothers w'' a' ha')
    · refine ⟨(hless.apart w' a ha).1, fun w'' a' ha' hkey => ?_⟩
      rw [setAnswered_answered] at ha'
      split at ha'
      · obtain rfl := Option.some.inj ha'
        exact absurd hkey.symm (hothers w' a ha)
      · exact (h.apart w' a ha).2 w'' a' ha' hkey
  · intro k' hk'
    by_cases heq : k = k'
    · exact ⟨r, heq ▸ hr⟩
    · refine h.posted k' ?_
      rwa [setAnswered_postsOf, addPost_postsOf, if_neg heq] at hk'
  · intro k' r' hr'
    obtain ⟨hle, hN⟩ := h.counted k' r' hr'
    refine ⟨?_, hN⟩
    rw [setAnswered_postsOf, addPost_postsOf]
    split
    · next heq =>
      subst heq
      obtain rfl := Option.some.inj (hr.symm.trans hr')
      exact hposts
    · exact hle
  · exact h.pending
  · refine List.pairwise_append.2 ⟨h.final, List.pairwise_singleton _ _, fun p hp q hq htaken => ?_⟩
    rw [List.mem_singleton.1 hq]
    rintro rfl
    exact hnew (htaken ▸ hp)
  · intro k' hk'
    rcases List.mem_append.1 hk' with hk' | hk'
    · exact hless.delivered k' hk'
    · obtain rfl := congrArg Prod.fst (List.mem_singleton.1 hk')
      exact ⟨not_isPending_of_sending hr hstatus, hheld⟩

theorem Inv.mark (h : s.Inv N) {a : Answer κ} (ha : s.answered w = some a) :
    ((s.setAnswered w none).record a).Inv N := by
  have hless : (s.setAnswered w none).Inv N := h.forget w
  obtain ⟨hlimit, ⟨r, hr, -⟩, htaken⟩ := h.waiting w a ha
  obtain ⟨hheld, hothers⟩ := h.apart w a ha
  have hrow : ∀ k, ((s.setAnswered w none).record a).row k = if k = a.key then some (outcome r a) else s.row k := fun k =>
    record_row hr
  have hposts : ∀ k, ((s.setAnswered w none).record a).postsOf k = s.postsOf k := fun k => by
    rw [postsOf, record_posts]
    rfl
  refine ⟨fun w' k hk => ?_, fun w' a' ha' => ?_, ?_, ?_, ?_, fun k hk => ?_, fun k r' hr' => ?_,
    fun k r' hr' hstatus => ?_, ?_, fun k hk => ?_⟩
  · rw [record_held] at hk
    obtain ⟨r', hr', hsending⟩ := h.sending w' k hk
    have hne : k ≠ a.key := fun heq => hheld w' (heq ▸ hk)
    exact ⟨r', by rw [hrow, if_neg hne, hr'], by rw [hposts]; exact hsending⟩
  · rw [record_answered] at ha'
    obtain ⟨hle, ⟨r', hr', hstatus⟩, htaken'⟩ := hless.waiting w' a' ha'
    have hne : a'.key ≠ a.key := by
      rw [setAnswered_answered] at ha'
      split at ha'
      · cases ha'
      · next hw => exact fun heq => hw (hothers w' a' ha' heq)
    rw [record_posts]
    exact ⟨hle, ⟨r', by rw [hrow, if_neg hne]; exact hr', hstatus⟩, htaken'⟩
  · rw [record_held]
    exact h.exclusive
  · rw [record_held]
    exact h.nodup
  · rw [record_held, record_answered]
    exact hless.apart
  · rw [hrow]
    split
    · exact ⟨_, rfl⟩
    · exact h.posted k (hposts k ▸ hk)
  · rw [hrow] at hr'
    rw [hposts]
    split at hr'
    · next hk =>
      obtain rfl := Option.some.inj hr'
      rw [hk]
      exact h.counted a.key r hr
    · exact h.counted k r' hr'
  · rw [hrow] at hr'
    split at hr'
    · obtain rfl := Option.some.inj hr'
      -- pending again: the limit is not reached
      by_contra hlt
      have hle : a.limit ≤ r.attempts := Nat.le_trans hlimit (Nat.le_of_not_lt hlt)
      rw [outcome, if_pos hle] at hstatus
      split at hstatus <;> cases hstatus
    · exact h.pending k r' hr' hstatus
  · rw [record_posts]
    exact h.final
  · rw [record_posts] at hk
    rw [record_held]
    refine ⟨?_, (h.delivered k hk).2⟩
    rintro ⟨r', hr', hstatus⟩
    rw [hrow] at hr'
    split at hr'
    · next heq =>
      obtain rfl := Option.some.inj hr'
      rw [heq] at hk
      rw [outcome, htaken hk] at hstatus
      cases hstatus
    · exact (h.delivered k hk).1 ⟨r', hr', hstatus⟩

theorem Inv.step (h : s.Inv N) (hN : 0 < N) {op : Op κ} (hop : op.Within N) : (s.step op).Inv N := by
  unfold State.step
  cases op with
  | rest => exact h
  | enqueue k =>
    dsimp only
    split
    · next hnone => exact h.enqueue hN hnone
    · exact h
  | claim w ks =>
    dsimp only
    split
    · next hks => exact h.claim hks.1 hks.2 w
    · exact h
  | post w k reply limit =>
    dsimp only
    split
    · next hk => exact h.post hop hk.1 reply
    · exact h
  | mark w written =>
    dsimp only
    split
    · next ha =>
      split
      · exact h.mark ha
      · exact h.forget w
    · exact h
  | drop w => exact (h.setHeld (List.nil_sublist _)).forget w

/-! ## What it gives -/

theorem step_post_posts (hk : k ∈ s.held w) (hfree : s.answered w = none) (reply : Reply) (limit : ℕ) :
    (s.step (.post w k reply limit)).posts = s.posts ++ [(k, reply)] := by
  unfold State.step
  dsimp only
  rw [if_pos ⟨hk, hfree⟩]
  rfl

/-- Only a post posts. -/
theorem step_posts {op : Op κ} (hop : ∀ w k reply limit, op ≠ .post w k reply limit) : (s.step op).posts = s.posts := by
  unfold State.step
  cases op with
  | post w k reply limit => exact absurd rfl (hop w k reply limit)
  | rest => rfl
  | drop w => rfl
  | mark w written =>
    dsimp only
    split
    · split
      · exact record_posts
      · rfl
    · rfl
  | _ =>
    dsimp only
    split <;> rfl

/-- **At most `N` posts** of a message. -/
theorem Inv.posts_le (h : s.Inv N) (k : κ) : s.postsOf k ≤ N := by
  cases hr : s.row k with
  | none => exact (h.postsOf_eq_zero hr).trans_le (Nat.zero_le N)
  | some r => exact Nat.le_trans (h.counted k r hr).1 (h.counted k r hr).2

theorem Inv.nodup_taken (h : s.Inv N) : ((s.posts.filter (·.2.seen)).map Prod.fst).Nodup := by
  have hdiffer : (s.posts.filter (·.2.seen)).Pairwise fun p q => p.1 ≠ q.1 := by
    refine List.pairwise_filter.2 (h.final.imp fun hpq hp _ => hpq ?_)
    simpa [Reply.seen] using hp
  exact List.pairwise_map.2 hdiffer

/-- **No message is answered as taken twice.** -/
theorem Inv.taken_le (h : s.Inv N) {p : κ → Bool} {ks : List κ} (hks : ∀ k, p k = true → 0 < s.postsOf k → k ∈ ks) :
    countOf s.posts p Reply.seen ≤ ks.length := by
  have hsub : (s.posts.filter fun q => p q.1 && q.2.seen).Sublist (s.posts.filter (·.2.seen)) :=
    List.monotone_filter_right _ fun q hq => (Bool.and_eq_true_iff.1 hq).2
  have hkeys : ((s.posts.filter fun q => p q.1 && q.2.seen).map Prod.fst).Nodup := h.nodup_taken.sublist (hsub.map _)
  have hmem : (s.posts.filter fun q => p q.1 && q.2.seen).map Prod.fst ⊆ ks := by
    intro k hk
    obtain ⟨q, hq, rfl⟩ := List.mem_map.1 hk
    obtain ⟨hpost, hq⟩ := List.mem_filter.1 hq
    exact hks q.1 (Bool.and_eq_true_iff.1 hq).1 (List.countP_pos_iff.2 ⟨q, hpost, by simp⟩)
  rw [countOf, List.countP_eq_length_filter, ← List.length_map Prod.fst]
  exact (List.subperm_of_subset hkeys hmem).length_le

end State

end Outbox
