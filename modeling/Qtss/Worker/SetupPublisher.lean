import Qtss.Worker.XPublisher
/-
# Broadcasts of setups (`qtss-worker/src/setup_publisher.rs`, `qtss-storage/src/setup_broadcast_outbox.rs`)

| here | there |
| --- | --- |
| `System.broadcasts` | `setup_broadcast_outbox` (migrations/0144), which has at most one row for a setup |
| `Op.enqueue`, `.claim` | `enqueue`, `claim_batch` (setup_broadcast_outbox.rs:30, :47) |
| `publishOne`       | `publish_one` (setup_publisher.rs:61) up to its mark |
| `Op.mark`          | `mark_sent` or `mark_failed` (setup_broadcast_outbox.rs:79, :107) |
| `Fetched`          | what `fetch_v2_setup` finds; with a setup, what came of the message to Telegram and of the row for `x_outbox` |
| `Op.x`             | the publishers of `x_outbox`, and the other producers of its rows |

A broadcast goes through two outboxes. Telegram may have taken a message, and the table a row, of which the publisher is told
that it failed. What a publisher did of a row before it crashed is what `Fetched` says, with `Op.crash` after it. The cards
are not rendered here: `body` is what came of it.
-/

namespace Qtss.Worker.Broadcasts
open Runs X
open Outbox (Reply countOf)

inductive Fetched where
  | found (telegram insert : Reply) (body : String)
  | missing
  | error

structure System where
  broadcasts : Outbox.State ℕ
  /-- The messages to Telegram. -/
  telegram : List (ℕ × Reply)
  /-- The rows for `x_outbox`. -/
  inserts : List (ℕ × Reply)
  x : XOutbox

inductive Op where
  | enqueue (setupId : ℕ)
  | claim (w : ℕ) (picked : List ℕ)
  | publish (w setupId : ℕ) (fetched : Fetched) (maxAttempts : ℕ)
  | mark (w : ℕ) (written : Bool)
  | crash (w : ℕ)
  | x (op : X.Op)

namespace System

def start : System := ⟨.start, [], [], .start⟩

/-- A setup that is gone is failed for good: `mark_failed` with no attempts allowed. -/
def publishOne (s : System) (w setupId : ℕ) (fetched : Fetched) (maxAttempts : ℕ) : System :=
  if setupId ∈ s.broadcasts.held w ∧ s.broadcasts.answered w = none then
    match fetched with
    | .missing => { s with broadcasts := s.broadcasts.step (.post w setupId .refused 0) }
    | .error => { s with broadcasts := s.broadcasts.step (.post w setupId .refused maxAttempts) }
    | .found telegram insert body =>
      { broadcasts := s.broadcasts.step (.post w setupId (telegram.either insert) maxAttempts)
        telegram := s.telegram ++ [(setupId, telegram)]
        inserts := s.inserts ++ [(setupId, insert)]
        x := if insert.took then s.x.enqueue ⟨.newSetup setupId, body⟩ else s.x }
  else s

def step (s : System) : Op → System
  | .enqueue setupId => { s with broadcasts := s.broadcasts.step (.enqueue setupId) }
  | .claim w picked => { s with broadcasts := s.broadcasts.step (.claim w picked) }
  | .publish w setupId fetched maxAttempts => s.publishOne w setupId fetched maxAttempts
  | .mark w written => { s with broadcasts := s.broadcasts.step (.mark w written) }
  | .crash w => { s with broadcasts := s.broadcasts.step (.drop w) }
  | .x op => { s with x := s.x.step op }

/-- The row is the one for the new setup. -/
def IsAbout (s : System) (setupId id : ℕ) : Bool := s.x.rows[id]?.any (·.eventKey = .newSetup setupId)

end System

/-- The attempts are those that the configuration allows (setup_publisher.rs:321), and the other producers write other keys. -/
def Configured : Op → Prop
  | .publish _ _ _ maxAttempts => maxAttempts ≤ 50
  | .x (.enqueue ins) => ∀ setupId, ins.eventKey ≠ .newSetup setupId
  | _ => True

variable {s : System}

structure Inv (s : System) : Prop where
  broadcasts : s.broadcasts.Inv 50
  queue : s.x.queue.Inv (maxAttempts - 1)
  telegram : ∀ k, countOf s.telegram (· = k) Reply.seen ≤ countOf s.broadcasts.posts (· = k) Reply.seen
  inserts : ∀ k, countOf s.inserts (· = k) Reply.seen ≤ countOf s.broadcasts.posts (· = k) Reply.seen
  messages : ∀ k, s.telegram.countP (·.1 = k) ≤ s.broadcasts.postsOf k
  rows : ∀ k, s.x.rows.countP (·.eventKey = .newSetup k) ≤ countOf s.inserts (· = k) Reply.took

theorem inv_start : Inv .start where
  broadcasts := Outbox.State.inv_start
  queue := Outbox.State.inv_start
  telegram _ := Nat.le_refl 0
  inserts _ := Nat.le_refl 0
  messages _ := Nat.le_refl 0
  rows _ := Nat.le_refl 0

theorem postsOf_append {b b' : Outbox.State ℕ} {k : ℕ} {reply : Reply} (hposts : b'.posts = b.posts ++ [(k, reply)]) (j : ℕ) :
    b'.postsOf j = b.postsOf j + if k = j then 1 else 0 := by
  simp only [Outbox.State.postsOf, hposts, List.countP_append, List.countP_singleton, decide_eq_true_eq]

/-- The broadcasts go on without a message. -/
theorem Inv.quiet (h : Inv s) (op : Outbox.Op ℕ) (hop : op.Within 50)
    (hnot : ∀ w k reply limit, op ≠ .post w k reply limit) : Inv { s with broadcasts := s.broadcasts.step op } := by
  have hposts : (s.broadcasts.step op).posts = s.broadcasts.posts := Outbox.State.step_posts hnot
  refine ⟨h.broadcasts.step (by decide) hop, h.queue, ?_, ?_, fun k => ?_, h.rows⟩
  · rw [hposts]
    exact h.telegram
  · rw [hposts]
    exact h.inserts
  · rw [Outbox.State.postsOf, hposts]
    exact h.messages k

section publish
variable {w setupId limit : ℕ}

/-- Nothing was sent. -/
theorem Inv.refused (h : Inv s) (hheld : setupId ∈ s.broadcasts.held w ∧ s.broadcasts.answered w = none)
    (hlimit : limit ≤ 50) : Inv { s with broadcasts := s.broadcasts.step (.post w setupId .refused limit) } := by
  have hposts := Outbox.State.step_post_posts hheld.1 hheld.2 .refused limit
  have hstep : Outbox.Op.Within 50 (.post w setupId .refused limit) := hlimit
  refine ⟨h.broadcasts.step (by decide) hstep, h.queue, fun k => ?_, fun k => ?_, fun k => ?_, h.rows⟩
  · rw [hposts, Outbox.countOf_append]
    exact (h.telegram k).trans (Nat.le_add_right _ _)
  · rw [hposts, Outbox.countOf_append]
    exact (h.inserts k).trans (Nat.le_add_right _ _)
  · rw [postsOf_append hposts]
    exact (h.messages k).trans (Nat.le_add_right _ _)

/-- With a post come a message and, where it was inserted, a row. -/
theorem Inv.found (h : Inv s) (hheld : setupId ∈ s.broadcasts.held w ∧ s.broadcasts.answered w = none)
    (hlimit : limit ≤ 50) (telegram insert : Reply) (body : String) :
    Inv ⟨s.broadcasts.step (.post w setupId (telegram.either insert) limit), s.telegram ++ [(setupId, telegram)],
      s.inserts ++ [(setupId, insert)], if insert.took then s.x.enqueue ⟨.newSetup setupId, body⟩ else s.x⟩ := by
  have hposts := Outbox.State.step_post_posts hheld.1 hheld.2 (telegram.either insert) limit
  have hstep : Outbox.Op.Within 50 (.post w setupId (telegram.either insert) limit) := hlimit
  refine ⟨h.broadcasts.step (by decide) hstep, ?_, fun k => ?_, fun k => ?_, fun k => ?_, fun k => ?_⟩
  · dsimp only
    split
    · exact XOutbox.inv_step h.queue (.enqueue _)
    · exact h.queue
  · have hold := h.telegram k
    rw [hposts, Outbox.countOf_append, Outbox.countOf_append, Reply.seen_either]
    cases telegram.seen <;> simp <;> omega
  · have hold := h.inserts k
    rw [hposts, Outbox.countOf_append, Outbox.countOf_append, Reply.seen_either]
    cases insert.seen <;> simp <;> omega
  · rw [postsOf_append hposts, List.countP_append, List.countP_singleton]
    simpa using h.messages k
  · have hold := h.rows k
    rw [Outbox.countOf_append]
    dsimp only
    split
    · next htook =>
      rw [XOutbox.enqueue, List.countP_append, List.countP_singleton, htook]
      simpa using hold
    · exact hold.trans (Nat.le_add_right _ _)

theorem Inv.publishOne (h : Inv s) (w setupId : ℕ) (fetched : Fetched) {maxAttempts : ℕ} (hmax : maxAttempts ≤ 50) :
    Inv (s.publishOne w setupId fetched maxAttempts) := by
  unfold System.publishOne
  split
  · next hheld =>
    cases fetched with
    | missing => exact h.refused hheld (Nat.zero_le 50)
    | error => exact h.refused hheld hmax
    | found telegram insert body => exact h.found hheld hmax telegram insert body
  · exact h

end publish

theorem Inv.step (h : Inv s) {op : Op} (hop : Configured op) : Inv (s.step op) := by
  cases op with
  | enqueue setupId => exact h.quiet (.enqueue setupId) trivial nofun
  | claim w picked => exact h.quiet (.claim w picked) trivial nofun
  | publish w setupId fetched maxAttempts => exact h.publishOne w setupId fetched hop
  | mark w written => exact h.quiet (.mark w written) trivial nofun
  | crash w => exact h.quiet (.drop w) trivial nofun
  | x op =>
    refine ⟨h.broadcasts, XOutbox.inv_step h.queue op, h.telegram, h.inserts, h.messages, fun k => ?_⟩
    have hrows : (s.x.step op).rows.countP (·.eventKey = .newSetup k) = s.x.rows.countP (·.eventKey = .newSetup k) := by
      rw [XOutbox.step_rows, List.countP_append]
      cases op with
      | enqueue ins => simp [hop k]
      | _ => rfl
    exact hrows.trans_le (h.rows k)

/-- At most once is answered that a broadcast was taken. -/
theorem Inv.broadcast_seen (h : Inv s) (k : ℕ) : countOf s.broadcasts.posts (· = k) Reply.seen ≤ 1 :=
  have hkeys : ∀ j, decide (j = k) = true → 0 < s.broadcasts.postsOf j → j ∈ [k] := by simp
  h.broadcasts.taken_le hkeys

theorem length_isAbout (s : System) (k : ℕ) :
    ((List.range s.x.rows.length).filter (s.IsAbout k)).length = s.x.rows.countP (·.eventKey = .newSetup k) := by
  have hrows : (List.range s.x.rows.length).map (s.x.rows[·]?) = s.x.rows.map some :=
    List.ext_getElem (by simp) fun i _ _ => by simp
  calc ((List.range s.x.rows.length).filter (s.IsAbout k)).length
    _ = ((List.range s.x.rows.length).map (s.x.rows[·]?)).countP (·.any (·.eventKey = .newSetup k)) := by
        rw [List.countP_map, List.countP_eq_length_filter]
        rfl
    _ = s.x.rows.countP (·.eventKey = .newSetup k) := by
        rw [hrows, List.countP_map]
        rfl

/-- **Broadcast once.** Over both outboxes, with any number of publishers and whatever is lost or fails, a setup leads to
at most one message to Telegram and at most one tweet, and to one more for each of them of which a publisher was not told:
the answer of Telegram or X, or of the table that was to take the row for X. -/
theorem broadcast_once (ops : List Op) (hops : ∀ op ∈ ops, Configured op) (setupId : ℕ) :
    let s := run System.step .start ops
    countOf s.telegram (· = setupId) Reply.took ≤ 1 + countOf s.telegram (· = setupId) Reply.gone ∧
      countOf s.x.queue.posts (s.IsAbout setupId) Reply.took ≤
        1 + countOf s.inserts (· = setupId) Reply.gone + countOf s.x.queue.posts (s.IsAbout setupId) Reply.gone ∧
      s.telegram.countP (·.1 = setupId) ≤ 50 ∧ ∀ id, s.x.queue.postsOf id ≤ 4 := by
  intro s
  have h : Inv s := run_invariant (fun _ _ h hop => h.step hop) inv_start hops
  have hseen := h.broadcast_seen setupId
  refine ⟨?_, ?_, (h.messages setupId).trans (h.broadcasts.posts_le setupId), h.queue.posts_le⟩
  · have htelegram := h.telegram setupId
    rw [Outbox.countOf_took]
    omega
  · -- each row for X has at most one tweet that X confirmed, and all rows but those of lost answers were confirmed
    have htweets : countOf s.x.queue.posts (s.IsAbout setupId) Reply.seen ≤
        ((List.range s.x.rows.length).filter (s.IsAbout setupId)).length := h.queue.taken_le fun id hid _ => by
      refine List.mem_filter.2 ⟨List.mem_range.2 ?_, hid⟩
      obtain ⟨row, hrow, -⟩ := (Option.any_eq_true _ _).1 hid
      exact (List.getElem?_eq_some_iff.1 hrow).1
    have hrows := h.rows setupId
    have hinserts := h.inserts setupId
    rw [length_isAbout] at htweets
    rw [Outbox.countOf_took] at hrows ⊢
    omega

/-- Telegram has the message, which the publisher is not told, as little as that the row for X is there; the setup is broadcast
again, and X makes two tweets. -/
def sampleRun : List Op :=
  [.enqueue 7, .claim 0 [7], .publish 0 7 (.found .lost .lost "BTCUSDT long") 5, .mark 0 true, .claim 0 [7],
    .publish 0 7 (.found .taken .taken "BTCUSDT long") 5, .mark 0 true, .x (.count 1 true 10 50), .x (.claim 1 true [0, 1]),
    .x (.post 1 0 (.ok (some "1871")) true), .x (.mark 1 true), .x (.post 1 1 (.ok (some "1872")) true)]

theorem broadcast_once_sampleRun :
    let s := run System.step .start sampleRun
    countOf s.telegram (· = 7) Reply.took ≤ 1 + countOf s.telegram (· = 7) Reply.gone ∧
      countOf s.telegram (· = 7) Reply.took = 2 ∧ countOf s.x.queue.posts (s.IsAbout 7) Reply.took = 2 := by
  intro s
  have hops : ∀ op ∈ sampleRun, Configured op := by simp [sampleRun, Configured]
  exact ⟨(broadcast_once sampleRun hops 7).1, by decide, by decide⟩

end Qtss.Worker.Broadcasts
