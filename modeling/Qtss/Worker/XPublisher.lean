import Mathlib.Data.List.Range
import Mathlib.Order.Nat
import Qtss.Lib.Outbox
/-
# Posts to X (`qtss-worker/src/x_publisher.rs`, `qtss-storage/src/x_outbox.rs`)

| here | there |
| --- | --- |
| `XOutbox`          | `x_outbox` (migrations/0137): the status and the attempts of the rows in `queue`, what they were inserted with in `rows`, in the order of `created_at`, and what is written to them in `delivery` |
| `enqueue`          | `enqueue_x_outbox` (x_outbox.rs:43) |
| `countSentToday`   | `count_sent_today_utc` (x_outbox.rs:141), with the time zone of the session at UTC |
| `allowance`        | the count and the cap of `tick_once` (x_publisher.rs:28-37); a count that fails is none |
| `Op.claim`         | `claim_x_outbox_batch` (x_outbox.rs:65): pending rows, no more than asked for, and none that another claim has locked |
| `post`             | the `send` of `publish_one` (x_publisher.rs:60); a `send` that fails may have reached X all the same, whose answer came late or not at all |
| `mark`             | `mark_x_sent` or `mark_x_failed` (x_outbox.rs:94, :117) after it |

Any number of publishers run; each step is a statement of one of them, or a post to X. A mark can be lost, a publisher can
stop anywhere, and time passes between any two steps. The texts of posts are not looked into.
-/

namespace Qtss.Worker.X
open Runs
open Outbox (Reply Answer)

/-- `event_key`, as its producers write it: setup_publisher.rs:106, lifecycle_handlers.rs:252, report_scheduler_loop.rs:170. -/
inductive EventKey where
  | newSetup (setupId : ℕ)
  | lifecycle (kind : String)
  | report (kind : String)
deriving DecidableEq

structure XOutboxInsert where
  eventKey : EventKey
  body : String

structure Delivery where
  lastError : Option String
  tweetId : Option String
  permalink : Option String
  sentAt : Option ℕ

structure Post where
  row : ℕ
  reply : Reply
  time : ℕ

structure XOutbox where
  queue : Outbox.State ℕ
  rows : List XOutboxInsert
  delivery : ℕ → Delivery
  /-- How many rows a publisher that has counted may claim. -/
  allowance : ℕ → Option ℕ
  /-- What `send` last gave a publisher. -/
  receipt : ℕ → Except String (Option String)
  now : ℕ
  posts : List Post

inductive Op where
  | enqueue (ins : XOutboxInsert)
  | count (w : ℕ) (ok : Bool) (batchLimit dailyCap : ℕ)
  | claim (w : ℕ) (ok : Bool) (picked : List ℕ)
  | post (w id : ℕ) (receipt : Except String (Option String)) (reached : Bool)
  | mark (w : ℕ) (written : Bool)
  | crash (w : ℕ)
  | wait (secs : ℕ)

def maxAttempts : ℕ := 5

def day (t : ℕ) : ℕ := t / 86400

/-- `date_trunc('day', t)` -/
def midnight (t : ℕ) : ℕ := day t * 86400

/-- `min(batch_limit, daily_cap - sent_today)`, where that is positive. -/
def allowance (sentToday batchLimit dailyCap : ℕ) : Option ℕ :=
  if dailyCap ≤ sentToday then none
  else
    let claimN := min batchLimit (dailyCap - sentToday)
    if claimN = 0 then none else some claimN

/-- X made a tweet where `send` says so, or where the post has reached it and `send` failed after that. -/
def replyOf (receipt : Except String (Option String)) (reached : Bool) : Reply :=
  match receipt with
  | .ok _ => .taken
  | .error _ => if reached then .lost else .refused

namespace XOutbox

def start : XOutbox := ⟨.start, [], fun _ => ⟨none, none, none, none⟩, fun _ => none, fun _ => .ok none, 0, []⟩

def enqueue (x : XOutbox) (ins : XOutboxInsert) : XOutbox :=
  { x with queue := x.queue.step (.enqueue x.rows.length), rows := x.rows ++ [ins] }

def IsSent (x : XOutbox) (id : ℕ) : Bool := (x.queue.row id).any (·.status = .sent)

def countSentToday (x : XOutbox) : ℕ :=
  (List.range x.rows.length).countP fun id => x.IsSent id && (x.delivery id).sentAt.any (midnight x.now ≤ ·)

def setAllowance (x : XOutbox) (w : ℕ) (n : Option ℕ) : XOutbox := { x with allowance := Function.update x.allowance w n }

/-- A row is terminal where `attempt_count + 1 >= MAX_ATTEMPTS`. -/
def post (x : XOutbox) (w id : ℕ) (receipt : Except String (Option String)) (reached : Bool) : XOutbox :=
  if id ∈ x.queue.held w ∧ x.queue.answered w = none then
    { x with
      queue := x.queue.step (.post w id (replyOf receipt reached) (maxAttempts - 1))
      receipt := Function.update x.receipt w receipt
      posts := x.posts ++ [⟨id, replyOf receipt reached, x.now⟩] }
  else x

/-- What `mark_x_sent` and `mark_x_failed` write beside the status. -/
def delivered (x : XOutbox) (id : ℕ) : Except String (Option String) → Delivery
  | .ok providerId =>
    { x.delivery id with
      tweetId := some (providerId.getD "")
      permalink := providerId.map ("https://x.com/i/web/status/" ++ ·)
      sentAt := some x.now }
  | .error e => { x.delivery id with lastError := some e }

def mark (x : XOutbox) (w : ℕ) (written : Bool) : XOutbox :=
  match x.queue.answered w with
  | some a =>
    { x with
      queue := x.queue.step (.mark w written)
      delivery := if written then Function.update x.delivery a.key (x.delivered a.key (x.receipt w)) else x.delivery }
  | none => x

def step (x : XOutbox) : Op → XOutbox
  | .enqueue ins => x.enqueue ins
  | .count w ok batchLimit dailyCap =>
    if x.queue.held w = [] ∧ x.queue.answered w = none ∧ x.allowance w = none then
      x.setAllowance w (X.allowance (if ok then x.countSentToday else 0) batchLimit dailyCap)
    else x
  | .claim w ok picked =>
    match x.allowance w with
    | some n =>
      if ok ∧ picked.length ≤ n then { x with queue := x.queue.step (.claim w picked) }.setAllowance w none
      else x.setAllowance w none
    | none => x
  | .post w id receipt reached => x.post w id receipt reached
  | .mark w written => x.mark w written
  | .crash w => { x with queue := x.queue.step (.drop w) }.setAllowance w none
  | .wait secs => { x with now := x.now + secs }

/-! ## The queue -/

variable {x : XOutbox} {w id : ℕ}

theorem setAllowance_allowance (n : Option ℕ) (v : ℕ) :
    (x.setAllowance w n).allowance v = if v = w then n else x.allowance v := by
  simp only [setAllowance, Function.update_apply]

/-- What a step does to the queue. -/
def queueOp (x : XOutbox) : Op → Outbox.Op ℕ
  | .enqueue _ => .enqueue x.rows.length
  | .claim w ok picked =>
    match x.allowance w with
    | some n => if ok ∧ picked.length ≤ n then .claim w picked else .rest
    | none => .rest
  | .post w id receipt reached => .post w id (replyOf receipt reached) (maxAttempts - 1)
  | .mark w written => .mark w written
  | .crash w => .drop w
  | .count _ _ _ _ | .wait _ => .rest

theorem queueOp_within (x : XOutbox) (op : Op) : (x.queueOp op).Within (maxAttempts - 1) := by
  unfold queueOp
  cases op with
  | claim w ok picked =>
    dsimp only
    repeat' split
    all_goals trivial
  | post w id receipt reached => exact Nat.le_refl _
  | _ => trivial

theorem step_queue (x : XOutbox) (op : Op) : (x.step op).queue = x.queue.step (x.queueOp op) := by
  cases op with
  | enqueue ins => rfl
  | count w ok batchLimit dailyCap =>
    unfold step
    dsimp only
    split <;> rfl
  | claim w ok picked =>
    unfold step queueOp
    dsimp only
    cases x.allowance w with
    | none => rfl
    | some n =>
      dsimp only
      split <;> rfl
  | post w id receipt reached =>
    unfold step post queueOp
    dsimp only
    split
    · rfl
    · next hnot =>
      rw [Outbox.State.step, if_neg hnot]
  | mark w written =>
    unfold step mark queueOp
    dsimp only
    split
    · rfl
    · next hnone => simp only [Outbox.State.step, hnone]
  | crash w => rfl
  | wait secs => rfl

theorem inv_step (h : x.queue.Inv (maxAttempts - 1)) (op : Op) : (x.step op).queue.Inv (maxAttempts - 1) := by
  rw [step_queue]
  exact h.step (by decide) (x.queueOp_within op)

theorem step_rows (x : XOutbox) (op : Op) :
    (x.step op).rows = x.rows ++ match op with | .enqueue ins => [ins] | _ => [] := by
  cases op with
  | enqueue ins => rfl
  | _ =>
    simp only [List.append_nil]
    unfold step post mark setAllowance
    dsimp only
    repeat' split
    all_goals rfl

theorem step_posts_of_ne (x : XOutbox) (op : Op) (hop : ∀ w id receipt reached, op ≠ .post w id receipt reached) :
    (x.step op).posts = x.posts ∧ (x.step op).queue.posts = x.queue.posts := by
  have hqueue : (x.step op).queue.posts = x.queue.posts := by
    rw [step_queue]
    refine Outbox.State.step_posts fun w k reply limit heq => ?_
    unfold queueOp at heq
    cases op with
    | post w id receipt reached => exact hop w id receipt reached rfl
    | claim w ok picked =>
      dsimp only at heq
      repeat' split at heq
      all_goals cases heq
    | _ => cases heq
  refine ⟨?_, hqueue⟩
  cases op with
  | post w id receipt reached => exact absurd rfl (hop w id receipt reached)
  | enqueue ins => rfl
  | _ =>
    unfold step mark setAllowance
    dsimp only
    repeat' split
    all_goals rfl

/-! ## The daily cap -/

/-- The post is written down as sent, or publisher 0 is about to do so. -/
def Recorded (x : XOutbox) (p : Post) : Bool :=
  p.reply.seen && (x.IsSent p.row || (x.queue.answered 0).any (·.key = p.row))

def recordedOn (x : XOutbox) (d : ℕ) : ℕ := x.posts.countP fun p => decide (day p.time = d) && x.Recorded p

/-- The posts of a day that became tweets. -/
def tweetsOn (x : XOutbox) (d : ℕ) : ℕ := x.posts.countP fun p => decide (day p.time = d) && p.reply.took

/-- Those of which nothing is written down. -/
def unrecordedOn (x : XOutbox) (d : ℕ) : ℕ :=
  x.posts.countP fun p => decide (day p.time = d) && p.reply.took && !x.Recorded p

/-- What publisher 0 still may send in its tick. -/
def remaining (x : XOutbox) : ℕ := (x.queue.held 0).length + (x.allowance 0).getD 0

/-- Publisher 0 is the only one. -/
structure Capped (C : ℕ) (x : XOutbox) : Prop where
  inv : x.queue.Inv (maxAttempts - 1)
  posts : x.posts.map (fun p => (p.row, p.reply)) = x.queue.posts
  inserted : ∀ id, x.queue.row id ≠ none → id < x.rows.length
  alone : ∀ w ≠ 0, x.queue.held w = [] ∧ x.queue.answered w = none ∧ x.allowance w = none
  idle : x.allowance 0 ≠ none → x.queue.held 0 = [] ∧ x.queue.answered 0 = none
  told : ∀ a, x.queue.answered 0 = some a → (x.receipt 0).isOk = a.reply.seen
  past : ∀ p ∈ x.posts, p.time ≤ x.now
  /-- A post is marked after it was made. -/
  later : ∀ p ∈ x.posts, p.reply = .taken → x.IsSent p.row = true →
    ∃ t, (x.delivery p.row).sentAt = some t ∧ p.time ≤ t
  cap : ∀ d, x.recordedOn d + (if day x.now ≤ d then x.remaining else 0) ≤ C

/-- One publisher, whose counts succeed, with caps of at most `C`. -/
def Single (C : ℕ) : Op → Prop
  | .count w ok _ dailyCap => w = 0 ∧ ok = true ∧ dailyCap ≤ C
  | _ => True

variable {C : ℕ}

theorem capped_start (C : ℕ) : Capped C .start where
  inv := Outbox.State.inv_start
  posts := rfl
  inserted _ h := absurd rfl h
  alone _ _ := ⟨rfl, rfl, rfl⟩
  idle h := absurd rfl h
  told _ h := nomatch h
  past _ h := nomatch h
  later _ h := nomatch h
  cap d := by
    have hnone : (if day start.now ≤ d then start.remaining else 0) = 0 := ite_self 0
    rw [hnone]
    exact Nat.zero_le C

/-- No post is recorded that was not, and no more is to come. -/
theorem Capped.of_le {x' : XOutbox} (h : Capped C x) (hinv : x'.queue.Inv (maxAttempts - 1))
    (hposts : x'.posts = x.posts ∧ x'.queue.posts = x.queue.posts)
    (hinserted : ∀ id, x'.queue.row id ≠ none → id < x'.rows.length)
    (halone : ∀ w ≠ 0, x'.queue.held w = [] ∧ x'.queue.answered w = none ∧ x'.allowance w = none)
    (hidle : x'.allowance 0 ≠ none → x'.queue.held 0 = [] ∧ x'.queue.answered 0 = none)
    (htold : ∀ a, x'.queue.answered 0 = some a → (x'.receipt 0).isOk = a.reply.seen) (hnow : x.now ≤ x'.now)
    (hlater : ∀ p ∈ x.posts, p.reply = .taken → x'.IsSent p.row = true →
      ∃ t, (x'.delivery p.row).sentAt = some t ∧ p.time ≤ t)
    (hrecorded : ∀ p ∈ x.posts, x'.Recorded p = true → x.Recorded p = true) (hremaining : x'.remaining ≤ x.remaining) :
    Capped C x' where
  inv := hinv
  posts := by rw [hposts.1, hposts.2, h.posts]
  inserted := hinserted
  alone := halone
  idle := hidle
  told := htold
  past p hp := (h.past p (hposts.1 ▸ hp)).trans hnow
  later p hp := hlater p (hposts.1 ▸ hp)
  cap d := by
    have hless : x'.recordedOn d ≤ x.recordedOn d := by
      unfold recordedOn
      rw [hposts.1]
      refine List.countP_mono_left fun p hp hday => ?_
      obtain ⟨hday, hrec⟩ := Bool.and_eq_true_iff.1 hday
      exact Bool.and_eq_true_iff.2 ⟨hday, hrecorded p hp hrec⟩
    have hcap := h.cap d
    have hday : day x.now ≤ day x'.now := Nat.div_le_div_right hnow
    split <;> split at hcap <;> omega

theorem Capped.row_length (h : Capped C x) : x.queue.row x.rows.length = none := by
  by_contra hne
  exact absurd (h.inserted _ hne) (lt_irrefl _)

/-- What is posted has a row. -/
theorem Capped.row_of_mem (h : Capped C x) {p : Post} (hp : p ∈ x.posts) : ∃ r, x.queue.row p.row = some r := by
  have hmem : (p.row, p.reply) ∈ x.queue.posts := h.posts ▸ List.mem_map_of_mem hp
  exact h.inv.posted p.row (List.countP_pos_iff.2 ⟨_, hmem, by simp⟩)

theorem recorded_of_isSent {x' : XOutbox} {p : Post} (hsent : x'.IsSent p.row = true → x.IsSent p.row = true)
    (hanswered : x'.queue.answered 0 = x.queue.answered 0 ∨ x'.queue.answered 0 = none) (hp : x'.Recorded p = true) :
    x.Recorded p = true := by
  unfold Recorded at hp ⊢
  simp only [Bool.and_eq_true, Bool.or_eq_true] at hp ⊢
  refine ⟨hp.1, hp.2.imp hsent fun hany => ?_⟩
  rcases hanswered with heq | hnone
  · rwa [heq] at hany
  · rw [hnone] at hany
    cases hany

theorem Capped.enqueue (h : Capped C x) (ins : XOutboxInsert) : Capped C (x.enqueue ins) := by
  have hqueue : (x.enqueue ins).queue = x.queue.setRow x.rows.length ⟨.pending, 0⟩ := by
    simp only [XOutbox.enqueue, Outbox.State.step, h.row_length, if_true]
  have hlength : (x.enqueue ins).rows.length = x.rows.length + 1 := List.length_append
  have hsent : ∀ p ∈ x.posts, (x.enqueue ins).IsSent p.row = x.IsSent p.row := by
    intro p hp
    obtain ⟨r, hr⟩ := h.row_of_mem hp
    have hne : p.row ≠ x.rows.length := fun heq => by
      rw [heq, h.row_length] at hr
      cases hr
    rw [IsSent, hqueue, Outbox.State.setRow_row, if_neg hne]
    rfl
  refine h.of_le (inv_step h.inv (.enqueue ins)) (x.step_posts_of_ne (.enqueue ins) nofun) (fun id hid => ?_) ?_ ?_
    ?_ (Nat.le_refl _) (fun p hp htaken hp' => ?_) (fun p hp => ?_) ?_
  · rw [hqueue, Outbox.State.setRow_row] at hid
    rw [hlength]
    split at hid
    · omega
    · exact Nat.lt_succ_of_lt (h.inserted id hid)
  · rw [hqueue]
    exact h.alone
  · rw [hqueue]
    exact h.idle
  · rw [hqueue]
    exact h.told
  · rw [hsent p hp] at hp'
    exact h.later p hp htaken hp'
  · refine recorded_of_isSent (fun hp' => ?_) (Or.inl (by rw [hqueue]; rfl))
    rwa [hsent p hp] at hp'
  · unfold remaining
    rw [hqueue]
    exact Nat.le_refl _

/-- What is recorded of today's posts is counted, for a publisher that is not about to mark one. -/
theorem Capped.recordedOn_today (h : Capped C x) (hidle : x.queue.answered 0 = none) :
    x.recordedOn (day x.now) ≤ x.countSentToday := by
  have hsub : (x.posts.filter fun p => decide (day p.time = day x.now) && x.Recorded p).Sublist
      (x.posts.filter (·.reply.seen)) := by
    refine List.monotone_filter_right _ fun p hp => ?_
    exact (Bool.and_eq_true_iff.1 (Bool.and_eq_true_iff.1 hp).2).1
  have hnodup : ((x.posts.filter fun p => decide (day p.time = day x.now) && x.Recorded p).map Post.row).Nodup := by
    refine List.Nodup.sublist (hsub.map _) ?_
    have hkeys := h.inv.nodup_taken
    rw [← h.posts, List.filter_map, List.map_map] at hkeys
    exact hkeys
  unfold recordedOn countSentToday
  rw [List.countP_eq_length_filter, List.countP_eq_length_filter, ← List.length_map Post.row]
  refine (List.subperm_of_subset hnodup fun id hid => ?_).length_le
  obtain ⟨p, hp, rfl⟩ := List.mem_map.1 hid
  obtain ⟨hmem, hp⟩ := List.mem_filter.1 hp
  simp only [Recorded, hidle, Option.any_none, Bool.or_false, Bool.and_eq_true, decide_eq_true_eq] at hp
  obtain ⟨hday, hseen, hsent⟩ := hp
  obtain ⟨t, ht, hle⟩ := h.later p hmem (by simpa [Reply.seen] using hseen) hsent
  obtain ⟨r, hr⟩ := h.row_of_mem hmem
  have hmidnight : midnight x.now ≤ t := by
    unfold midnight
    rw [← hday]
    exact (Nat.div_mul_le_self p.time 86400).trans hle
  refine List.mem_filter.2 ⟨List.mem_range.2 (h.inserted p.row (by simp [hr])), ?_⟩
  simp [hsent, ht, hmidnight]

theorem Capped.recordedOn_future (h : Capped C x) {d : ℕ} (hd : day x.now < d) : x.recordedOn d = 0 := by
  refine List.countP_eq_zero.2 fun p hp hday => ?_
  have hle : day p.time ≤ day x.now := Nat.div_le_div_right (h.past p hp)
  have heq : day p.time = d := of_decide_eq_true (Bool.and_eq_true_iff.1 hday).1
  omega

theorem allowance_le (sent batch cap : ℕ) : (X.allowance sent batch cap).getD 0 ≤ cap - sent := by
  unfold X.allowance
  split
  · exact Nat.zero_le _
  · dsimp only
    split
    · exact Nat.zero_le _
    · exact min_le_right _ _

theorem Capped.count (h : Capped C x) (batchLimit : ℕ) {dailyCap : ℕ} (hcap : dailyCap ≤ C) :
    Capped C (x.step (.count 0 true batchLimit dailyCap)) := by
  unfold step
  dsimp only
  split
  · next hfree =>
    obtain ⟨hheld, hanswered, -⟩ := hfree
    refine ⟨h.inv, h.posts, h.inserted, fun w hw => ?_, fun _ => ⟨hheld, hanswered⟩, h.told, h.past, h.later, fun d => ?_⟩
    · obtain ⟨hheld, hanswered, hnone⟩ := h.alone w hw
      exact ⟨hheld, hanswered, by rw [setAllowance_allowance, if_neg hw, hnone]⟩
    · have hold := h.cap d
      have hleft := allowance_le x.countSentToday batchLimit dailyCap
      have htoday := h.recordedOn_today hanswered
      have hfuture := h.recordedOn_future (d := d)
      show x.recordedOn d + (if day x.now ≤ d then ((x.queue.held 0).length + _) else 0) ≤ C
      rw [hheld, setAllowance_allowance]
      simp only [if_true, List.length_nil, Nat.zero_add]
      split
      · next hday =>
        rcases hday.eq_or_lt with rfl | hlt
        · omega
        · rw [hfuture hlt]
          omega
      · omega
  · exact h

/-- Publisher 0 lets go of what it was allowed. -/
theorem Capped.setAllowance (h : Capped C x) : Capped C (x.setAllowance 0 none) := by
  refine h.of_le h.inv ⟨rfl, rfl⟩ h.inserted (fun w hw => ?_) (fun hne => absurd ?_ hne) h.told (Nat.le_refl _) h.later
    (fun _ _ hp => hp) ?_
  · rw [setAllowance_allowance, if_neg hw]
    exact h.alone w hw
  · rw [setAllowance_allowance, if_pos rfl]
  · unfold remaining
    rw [setAllowance_allowance, if_pos rfl]
    exact Nat.le_add_right _ _

/-- Rows that are pending are claimed in place of the allowance. -/
theorem Capped.beginAttempts (h : Capped C x) {n : ℕ} {picked : List ℕ} (hn : x.allowance 0 = some n)
    (hlength : picked.length ≤ n) (hpicked : picked.Nodup ∧ ∀ id ∈ picked, x.queue.IsPending id) :
    Capped C ({ x with queue := (x.queue.beginAttempts picked).setHeld 0 picked }.setAllowance 0 none) := by
  obtain ⟨hheld, hanswered⟩ := h.idle (by rw [hn]; nofun)
  -- a row that is claimed was not sent and is not sent now
  have hsent : ∀ id, ({ x with queue := (x.queue.beginAttempts picked).setHeld 0 picked }.setAllowance 0 none).IsSent id =
      true → x.IsSent id = true := by
    intro id hid
    unfold IsSent XOutbox.setAllowance at hid
    dsimp only at hid
    rw [Outbox.State.setHeld_row, Outbox.State.beginAttempts_row] at hid
    split at hid
    · cases hr : x.queue.row id <;> simp [hr] at hid
    · exact hid
  refine h.of_le (h.inv.claim hpicked.1 hpicked.2 0) ⟨rfl, rfl⟩ (fun id hid => ?_) (fun w hw => ?_)
    (fun hne => absurd ?_ hne) h.told (Nat.le_refl _) (fun p hp htaken hp' => h.later p hp htaken (hsent _ hp'))
    (fun p _ => recorded_of_isSent (hsent _) (Or.inl rfl)) ?_
  · refine h.inserted id fun hnone => hid ?_
    show (if id ∈ picked then _ else _) = none
    rw [hnone]
    split <;> rfl
  · simp only [XOutbox.setAllowance, Function.update_of_ne hw, Outbox.State.setHeld_held, if_neg hw]
    exact h.alone w hw
  · rw [setAllowance_allowance, if_pos rfl]
  · simp only [remaining, hn, hheld, XOutbox.setAllowance, Function.update_self, Option.getD_none, Option.getD_some,
      Outbox.State.setHeld_held, if_true, List.length_nil]
    omega

theorem Capped.claim (h : Capped C x) (w : ℕ) (ok : Bool) (picked : List ℕ) : Capped C (x.step (.claim w ok picked)) := by
  unfold step
  dsimp only
  by_cases hw : w = 0
  · subst hw
    cases hallowance : x.allowance 0 with
    | none => exact h
    | some n =>
      dsimp only
      split
      · next hlimit =>
        by_cases hpicked : picked.Nodup ∧ ∀ id ∈ picked, x.queue.IsPending id
        · rw [show x.queue.step (.claim 0 picked) = (x.queue.beginAttempts picked).setHeld 0 picked from if_pos hpicked]
          exact h.beginAttempts hallowance hlimit.2 hpicked
        · rw [show x.queue.step (.claim 0 picked) = x.queue from if_neg hpicked]
          exact h.setAllowance
      · exact h.setAllowance
  · rw [(h.alone w hw).2.2]
    exact h

theorem Capped.crash (h : Capped C x) (w : ℕ) : Capped C (x.step (.crash w)) := by
  have hheld : ∀ v, (x.step (.crash w)).queue.held v = if v = w then [] else x.queue.held v := fun v => by
    simp only [step, XOutbox.setAllowance, Outbox.State.step, Outbox.State.setHeld_held, Outbox.State.setAnswered_held]
  have hanswered : ∀ v, (x.step (.crash w)).queue.answered v = if v = w then none else x.queue.answered v := fun v => by
    simp only [step, XOutbox.setAllowance, Outbox.State.step, Outbox.State.setHeld_answered,
      Outbox.State.setAnswered_answered]
  have hallowance : ∀ v, (x.step (.crash w)).allowance v = if v = w then none else x.allowance v := fun v => by
    simp only [step, XOutbox.setAllowance, Function.update_apply]
  refine h.of_le (inv_step h.inv (.crash w)) ⟨rfl, rfl⟩ h.inserted (fun v hv => ?_) (fun hne => ?_) (fun a ha => ?_)
    (Nat.le_refl _) h.later (fun p _ => recorded_of_isSent (fun hp => hp) ?_) ?_
  · rw [hheld, hanswered, hallowance]
    split
    · exact ⟨rfl, rfl, rfl⟩
    · exact h.alone v hv
  · rw [hallowance] at hne
    rw [hheld, hanswered]
    split at hne
    · exact absurd rfl hne
    · next hw =>
      rw [if_neg hw, if_neg hw]
      exact h.idle hne
  · rw [hanswered] at ha
    split at ha
    · cases ha
    · exact h.told a ha
  · rw [hanswered]
    split
    · exact Or.inr rfl
    · exact Or.inl rfl
  · unfold remaining
    rw [hheld, hallowance]
    split
    · exact Nat.zero_le _
    · exact Nat.le_refl _

theorem Capped.wait (h : Capped C x) (secs : ℕ) : Capped C (x.step (.wait secs)) :=
  h.of_le h.inv ⟨rfl, rfl⟩ h.inserted h.alone h.idle h.told (Nat.le_add_right _ _) h.later (fun _ _ hp => hp)
    (Nat.le_refl _)

section post
variable {receipt : Except String (Option String)} {reached : Bool}

theorem post_queue (hid : id ∈ x.queue.held w ∧ x.queue.answered w = none) :
    (x.post w id receipt reached).queue =
      ((x.queue.setHeld w ((x.queue.held w).erase id)).addPost id (replyOf receipt reached)).setAnswered w
        (some ⟨id, replyOf receipt reached, maxAttempts - 1⟩) := by
  simp only [post, Outbox.State.step, if_pos hid]

theorem post_row (hid : id ∈ x.queue.held w ∧ x.queue.answered w = none) :
    (x.post w id receipt reached).queue.row = x.queue.row := by
  rw [post_queue hid]
  rfl

theorem post_answered (hid : id ∈ x.queue.held w ∧ x.queue.answered w = none) (v : ℕ) :
    (x.post w id receipt reached).queue.answered v =
      if v = w then some ⟨id, replyOf receipt reached, maxAttempts - 1⟩ else x.queue.answered v := by
  rw [post_queue hid, Outbox.State.setAnswered_answered]
  rfl

theorem post_held (hid : id ∈ x.queue.held w ∧ x.queue.answered w = none) (v : ℕ) :
    (x.post w id receipt reached).queue.held v = if v = w then (x.queue.held w).erase id else x.queue.held v := by
  rw [post_queue hid, Outbox.State.setAnswered_held, Outbox.State.addPost_held, Outbox.State.setHeld_held]

theorem post_posts (hid : id ∈ x.queue.held w ∧ x.queue.answered w = none) :
    (x.post w id receipt reached).posts = x.posts ++ [⟨id, replyOf receipt reached, x.now⟩] := by
  simp only [post, if_pos hid]

theorem post_receipt (hid : id ∈ x.queue.held w ∧ x.queue.answered w = none) :
    (x.post w id receipt reached).receipt w = receipt := by
  simp only [post, if_pos hid, Function.update_self]

/-- The rest stays. -/
theorem post_frame (hid : id ∈ x.queue.held w ∧ x.queue.answered w = none) (receipt : Except String (Option String))
    (reached : Bool) :
    (x.post w id receipt reached).rows = x.rows ∧ (x.post w id receipt reached).delivery = x.delivery ∧
      (x.post w id receipt reached).allowance = x.allowance ∧ (x.post w id receipt reached).now = x.now := by
  simp only [post, if_pos hid, and_self]

theorem isOk_eq_seen (receipt : Except String (Option String)) (reached : Bool) :
    receipt.isOk = (replyOf receipt reached).seen := by
  cases receipt with
  | ok providerId => rfl
  | error e => cases reached <;> rfl

/-- Nothing was answered as taken for a row that is held. -/
theorem Capped.row_ne (h : Capped C x) (hid : id ∈ x.queue.held w) {p : Post} (hp : p ∈ x.posts)
    (hseen : p.reply.seen = true) : p.row ≠ id := by
  rintro rfl
  have hmem : (p.row, p.reply) ∈ x.queue.posts := h.posts ▸ List.mem_map_of_mem hp
  rw [show p.reply = .taken by simpa [Reply.seen] using hseen] at hmem
  exact (h.inv.delivered p.row hmem).2 w hid

theorem Capped.isSent_held (h : Capped C x) (hid : id ∈ x.queue.held w) : x.IsSent id = false := by
  obtain ⟨r, hr, hstatus, -⟩ := h.inv.sending w id hid
  simp [IsSent, hr, hstatus]

theorem Capped.recordedOn_post (h : Capped C x) (hid : id ∈ x.queue.held 0 ∧ x.queue.answered 0 = none)
    (receipt : Except String (Option String)) (reached : Bool) (d : ℕ) :
    (x.post 0 id receipt reached).recordedOn d ≤ x.recordedOn d + if day x.now = d then 1 else 0 := by
  have hold : x.posts.countP (fun p => decide (day p.time = d) && (x.post 0 id receipt reached).Recorded p) ≤
      x.recordedOn d := by
    refine List.countP_mono_left fun p hp hday => ?_
    simp only [Recorded, IsSent, post_row hid, post_answered hid, if_true, Option.any_some, Bool.and_eq_true,
      Bool.or_eq_true, decide_eq_true_eq] at hday ⊢
    obtain ⟨hday, hseen, hsent | rfl⟩ := hday
    · exact ⟨hday, hseen, Or.inl hsent⟩
    · exact absurd rfl (h.row_ne hid.1 hp hseen)
  unfold recordedOn at hold ⊢
  rw [post_posts hid, List.countP_append, List.countP_singleton]
  refine Nat.add_le_add hold ?_
  by_cases hday : day x.now = d
  · rw [if_pos hday]
    split <;> omega
  · simp [hday]

/-- A post takes the place of a row that was held. -/
theorem Capped.post (h : Capped C x) (w id : ℕ) (receipt : Except String (Option String)) (reached : Bool) :
    Capped C (x.step (.post w id receipt reached)) := by
  have hinv := inv_step h.inv (.post w id receipt reached)
  unfold XOutbox.step at hinv ⊢
  dsimp only at hinv ⊢
  by_cases hid : id ∈ x.queue.held w ∧ x.queue.answered w = none
  · obtain rfl : w = 0 := by
      by_contra hw
      rw [(h.alone w hw).1] at hid
      cases hid.1
    obtain ⟨hrows, hdelivery, hallowance, hnow⟩ := post_frame hid receipt reached
    refine ⟨hinv, ?_, fun j hj => ?_, fun v hv => ?_, fun hne => ?_, fun a ha => ?_, fun p hp => ?_,
      fun p hp htaken hsent => ?_, fun d => ?_⟩
    · rw [post_posts hid, List.map_append, h.posts, post_queue hid]
      rfl
    · rw [post_row hid] at hj
      rw [hrows]
      exact h.inserted j hj
    · rw [post_held hid, post_answered hid, if_neg hv, if_neg hv, hallowance]
      exact h.alone v hv
    · rw [hallowance] at hne
      rw [(h.idle hne).1] at hid
      cases hid.1
    · rw [post_answered hid, if_pos rfl] at ha
      obtain rfl := Option.some.inj ha
      rw [post_receipt hid]
      exact isOk_eq_seen receipt reached
    · rw [post_posts hid] at hp
      rw [hnow]
      rcases List.mem_append.1 hp with hp | hp
      · exact h.past p hp
      · rw [List.mem_singleton.1 hp]
    · have hsent : x.IsSent p.row = true := by rwa [IsSent, post_row hid] at hsent
      rw [post_posts hid] at hp
      rw [hdelivery]
      rcases List.mem_append.1 hp with hp | hp
      · exact h.later p hp htaken hsent
      · rw [List.mem_singleton.1 hp, h.isSent_held hid.1] at hsent
        cases hsent
    · have hcap := h.cap d
      have hcount := h.recordedOn_post hid receipt reached d
      have hlength := List.length_erase_of_mem hid.1
      have hpos := List.length_pos_of_mem hid.1
      unfold remaining at hcap ⊢
      rw [hnow, post_held hid, if_pos rfl, hallowance]
      by_cases hday : day x.now = d
      · rw [if_pos hday] at hcount
        rw [if_pos hday.le] at hcap ⊢
        omega
      · rw [if_neg hday] at hcount
        split <;> split at hcap <;> omega
  · rw [XOutbox.post, if_neg hid]
    exact h

end post

section mark
variable {a : Answer ℕ}

theorem Capped.mark_row (h : Capped C x) (ha : x.queue.answered w = some a) (written : Bool) :
    ∃ r, (x.queue.row a.key = some r ∧ r.status = .sending) ∧ ∀ j, (x.mark w written).queue.row j =
      if written = true ∧ j = a.key then some (Outbox.State.outcome r a) else x.queue.row j := by
  obtain ⟨-, ⟨r, hr, hstatus⟩, -⟩ := h.inv.waiting w a ha
  refine ⟨r, ⟨hr, hstatus⟩, fun j => ?_⟩
  simp only [mark, ha, Outbox.State.step]
  cases written with
  | false => simp
  | true =>
    rw [if_pos rfl, Outbox.State.record_row (s := x.queue.setAnswered w none) hr]
    simp

theorem mark_held (v : ℕ) (written : Bool) : (x.mark w written).queue.held v = x.queue.held v := by
  unfold mark
  split
  · next ha =>
    simp only [Outbox.State.step, ha]
    split
    · rw [Outbox.State.record_held, Outbox.State.setAnswered_held]
    · rfl
  · rfl

theorem mark_answered (v : ℕ) (written : Bool) :
    (x.mark w written).queue.answered v = if v = w then none else x.queue.answered v := by
  unfold mark
  split
  · next ha =>
    simp only [Outbox.State.step, ha]
    split
    · rw [Outbox.State.record_answered, Outbox.State.setAnswered_answered]
    · rw [Outbox.State.setAnswered_answered]
  · next ha =>
    split
    · next hv => rw [hv, ha]
    · rfl

theorem mark_frame (x : XOutbox) (w : ℕ) (written : Bool) : (x.mark w written).rows = x.rows ∧
    (x.mark w written).allowance = x.allowance ∧ (x.mark w written).now = x.now := by
  unfold mark
  split <;> exact ⟨rfl, rfl, rfl⟩

/-- `sent_at` is written with the status. -/
theorem mark_delivery (ha : x.queue.answered w = some a) (hok : (x.receipt w).isOk = true) (j : ℕ) :
    ((x.mark w true).delivery j).sentAt = if j = a.key then some x.now else (x.delivery j).sentAt := by
  simp only [mark, ha, if_true, Function.update_apply]
  split
  · cases hreceipt : x.receipt w with
    | ok providerId => rfl
    | error e =>
      rw [hreceipt] at hok
      cases hok
  · rfl

theorem mark_delivery_of_ne (ha : x.queue.answered w = some a) (written : Bool) {j : ℕ} (hj : j ≠ a.key) :
    (x.mark w written).delivery j = x.delivery j := by
  simp only [mark, ha]
  split
  · exact Function.update_of_ne hj _ _
  · rfl

/-- A mark records no post but the one that it is the mark of, which was recorded. -/
theorem Capped.isSent_mark (h : Capped C x) (ha : x.queue.answered 0 = some a) {written : Bool} {id : ℕ}
    (hsent : (x.mark 0 written).IsSent id = true) :
    x.IsSent id = true ∨ written = true ∧ id = a.key ∧ a.reply.seen = true := by
  obtain ⟨r, -, hrow⟩ := h.mark_row ha written
  unfold IsSent at hsent ⊢
  rw [hrow] at hsent
  split at hsent
  · next hkey =>
    refine Or.inr ⟨hkey.1, hkey.2, ?_⟩
    by_contra hseen
    simp only [Outbox.State.outcome, hseen, if_false, Option.any_some, decide_eq_true_eq] at hsent
    split at hsent <;> cases hsent
  · exact Or.inl hsent

theorem Capped.mark (h : Capped C x) (w : ℕ) (written : Bool) : Capped C (x.step (.mark w written)) := by
  cases ha : x.queue.answered w with
  | none =>
    have hsame : x.step (.mark w written) = x := by simp only [step, XOutbox.mark, ha]
    rw [hsame]
    exact h
  | some a =>
    obtain rfl : w = 0 := by
      by_contra hw
      rw [(h.alone w hw).2.1] at ha
      cases ha
    obtain ⟨r, ⟨hr, hstatus⟩, hrow⟩ := h.mark_row ha written
    obtain ⟨hrows, hallowance, hnow⟩ := x.mark_frame 0 written
    refine h.of_le (inv_step h.inv (.mark 0 written)) (x.step_posts_of_ne (.mark 0 written) nofun) (fun j hj => ?_)
      (fun v hv => ?_) (fun hne => ?_) (fun b hb => ?_) hnow.ge (fun p hp htaken hsent => ?_) (fun p hp hrec => ?_) ?_
    · show j < (x.mark 0 written).rows.length
      rw [hrows]
      refine h.inserted j fun hnone => hj ?_
      show (x.mark 0 written).queue.row j = none
      rw [hrow, if_neg, hnone]
      rintro ⟨-, rfl⟩
      rw [hr] at hnone
      cases hnone
    · show (x.mark 0 written).queue.held v = [] ∧ (x.mark 0 written).queue.answered v = none ∧
        (x.mark 0 written).allowance v = none
      rw [mark_held, mark_answered, if_neg hv, hallowance]
      exact h.alone v hv
    · have hne : (x.mark 0 written).allowance 0 ≠ none := hne
      rw [hallowance] at hne
      rw [(h.idle hne).2] at ha
      cases ha
    · have hb : (x.mark 0 written).queue.answered 0 = some b := hb
      rw [mark_answered, if_pos rfl] at hb
      cases hb
    · rcases h.isSent_mark ha hsent with hsent | ⟨rfl, hkey, hseen⟩
      · have hne : p.row ≠ a.key := by
          intro heq
          rw [heq, IsSent, hr, Option.any_some, hstatus] at hsent
          cases hsent
        show ∃ t, ((x.mark 0 written).delivery p.row).sentAt = some t ∧ p.time ≤ t
        rw [mark_delivery_of_ne ha written hne]
        exact h.later p hp htaken hsent
      · exact ⟨x.now, (mark_delivery ha ((h.told a ha).trans hseen) p.row).trans (if_pos hkey), h.past p hp⟩
    · have hrec : (x.mark 0 written).Recorded p = true := hrec
      simp only [Recorded, mark_answered, if_true, Option.any_none, Bool.or_false, Bool.and_eq_true] at hrec
      simp only [Recorded, ha, Option.any_some, Bool.and_eq_true, Bool.or_eq_true, decide_eq_true_eq]
      refine ⟨hrec.1, ?_⟩
      rcases h.isSent_mark ha hrec.2 with hsent | ⟨-, hkey, -⟩
      · exact Or.inl hsent
      · exact Or.inr hkey.symm
    · show (x.mark 0 written).remaining ≤ x.remaining
      unfold remaining
      rw [mark_held, hallowance]

end mark

theorem Capped.step (h : Capped C x) {op : Op} (hop : Single C op) : Capped C (x.step op) := by
  cases op with
  | enqueue ins => exact h.enqueue ins
  | count w ok batchLimit dailyCap =>
    obtain ⟨rfl, rfl, hcap⟩ := hop
    exact h.count batchLimit hcap
  | claim w ok picked => exact h.claim w ok picked
  | post w id receipt reached => exact h.post w id receipt reached
  | mark w written => exact h.mark w written
  | crash w => exact h.crash w
  | wait secs => exact h.wait secs

theorem tweetsOn_le (x : XOutbox) (d : ℕ) : x.tweetsOn d ≤ x.recordedOn d + x.unrecordedOn d := by
  unfold tweetsOn recordedOn unrecordedOn
  induction x.posts with
  | nil => exact Nat.le_refl 0
  | cons p posts ih =>
    simp only [List.countP_cons]
    by_cases hrec : x.Recorded p = true
    · simp only [hrec, Bool.and_true, Bool.not_true, Bool.and_false]
      cases decide (day p.time = d) <;> cases p.reply.took <;> simp <;> omega
    · simp only [hrec, Bool.and_false, Bool.not_false, Bool.and_true]
      omega

end XOutbox

/-- **The daily cap.** One publisher, whose counts succeed, makes no more tweets on any day than the cap and those of which
nothing is written down: their answer was lost, or their mark, or the publisher crashed before it. -/
theorem tweets_le_cap (C : ℕ) (ops : List Op) (hops : ∀ op ∈ ops, XOutbox.Single C op) (d : ℕ) :
    let x := run XOutbox.step .start ops
    x.tweetsOn d ≤ C + x.unrecordedOn d := by
  intro x
  have h : XOutbox.Capped C x := run_invariant (fun _ _ h hop => h.step hop) (XOutbox.capped_start C) hops
  have hcap := h.cap d
  have hsplit := x.tweetsOn_le d
  omega

/-- The first tweet of the day is posted just before midnight and marked after it, and counts for the new day. -/
def midnightRun : List Op :=
  [.enqueue ⟨.report "weekly", ""⟩, .enqueue ⟨.report "monthly", ""⟩, .wait 86399, .count 0 true 10 1, .claim 0 true [0],
    .post 0 0 (.ok (some "1871")) true, .wait 1, .mark 0 true, .count 0 true 10 1, .claim 0 true [1],
    .post 0 1 (.ok (some "1872")) true]

theorem tweets_le_cap_midnightRun :
    let x := run XOutbox.step .start midnightRun
    x.tweetsOn 0 ≤ 1 + x.unrecordedOn 0 ∧ x.tweetsOn 0 = 1 ∧ x.tweetsOn 1 = 0 ∧ x.unrecordedOn 0 = 0 := by
  intro x
  have hops : ∀ op ∈ midnightRun, XOutbox.Single 1 op := by simp [midnightRun, XOutbox.Single]
  exact ⟨tweets_le_cap 1 midnightRun hops 0, by decide, by decide, by decide⟩

end Qtss.Worker.X
