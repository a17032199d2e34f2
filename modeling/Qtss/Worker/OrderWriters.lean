import Qtss.Lib.Runs
import Qtss.Reconcile.OpenOrdersPatch
import Qtss.Worker.BinanceUserStream
/-
# The writers of an order row

| here | there |
| --- | --- |
| `Op.place`, `Op.insertSubmitted` | `place_with_venue_response` and then `insert_submitted` (execution_bridge.rs:238) |
| `Op.stream`       | a message of a user stream |
| `Op.markCanceled` | `mark_canceled` at the end of `cancel_order` (`qtss-api/src/routes/orders_binance.rs:214`) |
| `Op.fetch`, `Op.list` | `spot_open_orders`, and then `list_for_user`, in one pass of `binance_spot_reconcile_loop` (binance_spot_reconcile.rs:128, :135) |
| `Op.pairs`, `Op.query`, `Op.refine`, `Op.mark` | the statements and the requests of `apply_binance_spot_open_orders_patch` (binance_open_orders_patch.rs:88); its sibling for futures does the same |

Each of these is one statement or one request, and they come in any order; the passes are numbered, and may
overlap. What the venue does is `Op.place` and `Op.close`: an order id names one order of an account, and a
closed order stays closed.

Two of the four writers do not look at what they overwrite. `mark_canceled` has no condition on the status, and
a pass compares rows with a list of open orders that it read before them: an order placed between the two reads
is in the one and not in the other (`writers_iff`).
-/

namespace Qtss.Worker.OrderWriters
open Storage Runs BinanceUserStream Reconcile.OpenOrders

/-- A user's Binance account of a segment. -/
structure Account where
  userId : Uuid
  segment : String
deriving DecidableEq

structure VenueOrder where
  account : Account
  id : ℤ
  isOpen : Bool
  id_range : 0 ≤ id ∧ id < 2 ^ 63
deriving DecidableEq

/-- Every order there was, the last placed last. -/
abbrev Venue := List VenueOrder

def Venue.openOrders (v : Venue) (a : Account) : Json :=
  Reconcile.OpenOrders.openOrders ((v.filter fun o => o.account = a ∧ o.isOpen).map (·.id))

def Venue.close (v : Venue) (a : Account) (id : ℤ) : Venue :=
  v.map fun o => if o.account = a ∧ o.id = id then { o with isOpen := false } else o

/-- How far a pass has come after the rows are listed. -/
structure Patch where
  ids : List ℤ
  /-- `list_submitted_venue_symbol_pairs` has been read. -/
  paired : Bool
  todo : List (ℤ × String)
  /-- The answer to an order query, not stored yet. -/
  answer : Option (ℤ × OrderStatus × Json)
  resolved : List ℤ

inductive Progress where
  /-- The open orders have been read. -/
  | fetched (remote : Json)
  | patching (p : Patch)

/-- One pass over an account. -/
structure Pass where
  account : Account
  cfg : BinanceOpenOrdersPatchConfig
  /-- How many orders the venue had when the pass read the open ones. -/
  seen : ℕ
  progress : Progress

structure World where
  table : OrderTable
  /-- Placed, and the row not stored yet. -/
  placing : List NewOrder
  venue : Venue
  passes : ℕ → Option Pass

def World.start : World := ⟨[], [], [], fun _ => none⟩

inductive Op where
  | place (v : VenueOrder) (o : NewOrder)
  | insertSubmitted (i : ℕ)
  | close (a : Account) (id : ℤ)
  | stream (s : UserStream) (userId : Uuid) (m : Message)
  | markCanceled (userId clientOrderId : Uuid) (now : DateTime)
  | fetch (pass : ℕ) (a : Account) (cfg : BinanceOpenOrdersPatchConfig)
  | list (pass : ℕ)
  | pairs (pass : ℕ)
  | query (pass : ℕ) (reply : Option Json)
  | refine (pass : ℕ) (now : DateTime)
  | mark (pass : ℕ) (now : DateTime)
  | fail (pass : ℕ)

/-- The request of `place`, as it goes into the row. -/
def placedOrder (v : VenueOrder) (o : NewOrder) : NewOrder :=
  { o with userId := v.account.userId, exchange := "binance", segment := v.account.segment, venueOrderId := some v.id }

def World.setPass (w : World) (n : ℕ) (p : Option Pass) : World :=
  { w with passes := Function.update w.passes n p }

/-- `binance_spot_reconcile.rs:142`, then `venue_order_ids_submitted_not_on_open_list`. -/
def listedIds (table : OrderTable) (a : Account) (remote : Json) : Option (List ℤ) :=
  venueOrderIdsSubmittedNotOnOpenList remote (localSnapshots a.segment (listForUser table a.userId 500))

/-- The queries are through. -/
def Patch.refined (p : Patch) (cfg : BinanceOpenOrdersPatchConfig) : Bool :=
  (p.paired || !cfg.refineViaOrderQuery) && p.todo.isEmpty && p.answer.isNone

/-- The ids that are left for `reconciled_not_open`. -/
def Patch.remaining (p : Patch) (cfg : BinanceOpenOrdersPatchConfig) : List ℤ :=
  if cfg.patchSubmittedToReconciledNotOpen then p.ids.filter (· ∉ p.resolved) else []

/-- The next query of a pass is answered: an id that is negative, a request that fails and a status that is
still open are passed over. -/
def Patch.answered (p : Patch) (reply : Option Json) : Patch :=
  match p.answer, p.todo with
  | none, (vid, _) :: todo =>
    if vid < 0 then { p with todo := todo }
    else { p with todo := todo, answer := reply.bind fun json =>
      (exchangeOrderStatusFromBinanceJson json).map fun st => (vid, st, json) }
  | _, _ => p

def step (w : World) : Op → World
  | .place v o =>
    if w.venue.any fun u => u.account = v.account ∧ u.id = v.id then w
    else { w with venue := w.venue ++ [v], placing := w.placing ++ [placedOrder v o] }
  | .insertSubmitted i =>
    match w.placing[i]? with
    | none => w
    | some o => { w with
        placing := w.placing.eraseIdx i
        table := (insertSubmitted w.table o).getD w.table }
  | .close a id => { w with venue := w.venue.close a id }
  | .stream s userId m => { w with table := (handleEvent s userId ⟨w.table, []⟩ m).orders }
  | .markCanceled userId clientOrderId now => { w with table := (markCanceled w.table userId clientOrderId now).1 }
  | .fetch n a cfg => w.setPass n (some ⟨a, cfg, w.venue.length, .fetched (w.venue.openOrders a)⟩)
  | .list n =>
    match w.passes n with
    | some ⟨a, cfg, seen, .fetched remote⟩ =>
      w.setPass n ((listedIds w.table a remote).map fun ids => ⟨a, cfg, seen, .patching ⟨ids, false, [], none, []⟩⟩)
    | _ => w
  | .pairs n =>
    match w.passes n with
    | some ⟨a, cfg, seen, .patching p⟩ =>
      if cfg.refineViaOrderQuery && !p.paired then
        w.setPass n (some ⟨a, cfg, seen, .patching { p with
          paired := true
          todo := (listSubmittedVenueSymbolPairs w.table a.userId "binance" a.segment p.ids).take
            cfg.refineMaxOrders }⟩)
      else w
    | _ => w
  | .query n reply =>
    match w.passes n with
    | some ⟨a, cfg, seen, .patching p⟩ => w.setPass n (some ⟨a, cfg, seen, .patching (p.answered reply)⟩)
    | _ => w
  | .refine n now =>
    match w.passes n with
    | some ⟨a, cfg, seen, .patching p⟩ =>
      match p.answer with
      | none => w
      | some (vid, st, json) =>
        let (table, affected) :=
          updateSubmittedStatusAndVenueResponse w.table a.userId "binance" a.segment vid st json now
        { w with table := table }.setPass n (some ⟨a, cfg, seen, .patching { p with
          answer := none
          resolved := if affected > 0 then vid :: p.resolved else p.resolved }⟩)
    | _ => w
  | .mark n now =>
    match w.passes n with
    | some ⟨a, cfg, _, .patching p⟩ =>
      if p.refined cfg then
        { w with table := (markSubmittedReconciledNotOpenByVenueIds w.table a.userId "binance" a.segment
            (p.remaining cfg) now).1 }.setPass n none
      else w
    | _ => w
  | .fail n => w.setPass n none

/-! ## What is asked of the writers -/

/-- The row is that of the order. -/
def VenueOrder.names (v : VenueOrder) (r : ExchangeOrderRow) : Bool :=
  r.isVenueOrder v.account.userId "binance" v.account.segment v.id

/-- A final status stays. Rows keep their places. -/
def TerminalKept (w : World) (op : Op) : Prop :=
  ∀ (i : ℕ) (r : ExchangeOrderRow), w.table[i]? = some r → r.status.isTerminal →
    ∃ r' : ExchangeOrderRow, (step w op).table[i]? = some r' ∧ r'.status = r.status

/-- No order that is open, and so has been since it was placed, is taken for closed. -/
def NoOpenReconciled (w : World) : Prop :=
  ∀ r ∈ w.table, r.status = .reconciledNotOpen → ∀ v ∈ w.venue, v.names r → v.isOpen = false

/-- No cancel comes for an order that is filled, rejected or expired in the table. -/
def CancelsUnfinished (w : World) : Op → Prop
  | .markCanceled userId clientOrderId _ => ∀ r ∈ w.table, r.userId = userId → r.clientOrderId = clientOrderId →
      r.status.isTerminal → r.status = .canceled
  | _ => True

/-- A patch finds no order among the submitted ones it was going to mark that was placed after the pass had read
the open orders and is open still. -/
def MarksNoNewcomer (w : World) : Op → Prop
  | .mark n _ =>
    match w.passes n with
    | some ⟨a, cfg, seen, .patching p⟩ => p.refined cfg → ∀ v ∈ w.venue.drop seen, v.account = a → v.isOpen →
        v.id ∈ p.remaining cfg → ∀ r ∈ w.table, v.names r → r.status ≠ .submitted
    | _ => True
  | _ => True

/-! ## Final rows -/

section terminal
variable {w : World} {op : Op}

theorem kept_update {cond : ExchangeOrderRow → Bool} {set : ExchangeOrderRow → ExchangeOrderRow} {t : OrderTable}
    (h : ∀ r, cond r → r.status.isTerminal = false) {i : ℕ} {r : ExchangeOrderRow} (hi : t[i]? = some r)
    (hr : r.status.isTerminal) : (t.update cond set).1[i]? = some r := by
  rw [getElem?_update, hi, Option.map_some]
  cases hcond : cond r with
  | false => simp
  | true =>
    rw [h r hcond] at hr
    cases hr

theorem kept_insert {t : OrderTable} {o : NewOrder} {i : ℕ} {r : ExchangeOrderRow} (hi : t[i]? = some r) :
    ((insertSubmitted t o).getD t)[i]? = some r := by
  unfold insertSubmitted
  split
  · exact hi
  · obtain ⟨hlt, -⟩ := List.getElem?_eq_some_iff.1 hi
    rw [Option.getD_some, List.getElem?_append_left hlt, hi]

@[simp] theorem setPass_table (n : ℕ) (p : Option Pass) : (w.setPass n p).table = w.table := rfl

@[simp] theorem setPass_venue (n : ℕ) (p : Option Pass) : (w.setPass n p).venue = w.venue := rfl

@[simp] theorem setPass_placing (n : ℕ) (p : Option Pass) : (w.setPass n p).placing = w.placing := rfl

/-- A pass that only reads, or gives up. -/
def Op.reads : Op → Bool
  | .fetch _ _ _ | .list _ | .pairs _ | .query _ _ | .fail _ => true
  | _ => false

/-- Such a step changes what its pass knows, and nothing else. -/
theorem step_reads (h : op.reads) : ∃ passes, step w op = { w with passes := passes } := by
  cases op with
  | fetch n a cfg => exact ⟨_, rfl⟩
  | list n =>
    simp only [step]
    split <;> exact ⟨_, rfl⟩
  | pairs n =>
    simp only [step]
    split
    · split <;> exact ⟨_, rfl⟩
    · exact ⟨_, rfl⟩
  | query n reply =>
    simp only [step]
    split <;> exact ⟨_, rfl⟩
  | fail n => exact ⟨_, rfl⟩
  | _ => cases h

theorem rowEvent_terminal {s : UserStream} {userId : Uuid} {m : Message} {r : ExchangeOrderRow}
    (hr : r.status.isTerminal) : rowEvent s userId r m = r := by
  unfold rowEvent
  split
  · rfl
  · simp [hr]

/-- A final row is overwritten by no one who looks. -/
theorem kept_of_not_cancel (h : ∀ userId clientOrderId now, op ≠ .markCanceled userId clientOrderId now) {i : ℕ}
    {r : ExchangeOrderRow} (hi : w.table[i]? = some r) (hr : r.status.isTerminal) :
    (step w op).table[i]? = some r := by
  have hsubmitted : ∀ r' : ExchangeOrderRow, (r'.status == .submitted) = true → r'.status.isTerminal = false := by
    intro r' h'
    rw [eq_of_beq h']
    rfl
  by_cases hreads : op.reads
  · obtain ⟨passes, hstep⟩ := step_reads (w := w) hreads
    rw [hstep]
    exact hi
  cases op with
  | markCanceled userId clientOrderId now => exact absurd rfl (h userId clientOrderId now)
  | place v o =>
    simp only [step]
    split <;> exact hi
  | insertSubmitted j =>
    simp only [step]
    split
    · exact hi
    · exact kept_insert hi
  | close a id => exact hi
  | stream s userId m =>
    simp only [step, handleEvent_orders, List.getElem?_map, hi, Option.map_some, rowEvent_terminal hr]
  | refine n now =>
    simp only [step]
    split
    · split
      · exact hi
      · exact kept_update (fun r' h' => hsubmitted r' (Bool.and_eq_true_iff.1 h').2) hi hr
    · exact hi
  | mark n now =>
    simp only [step]
    split
    · split
      · exact kept_update (fun r' h' => hsubmitted r' (Bool.and_eq_true_iff.1 h').2) hi hr
      · exact hi
    · exact hi
  | _ => exact absurd rfl hreads

/-- **Final statuses**: a step keeps them exactly when it is no cancel of an order that ended otherwise. -/
theorem terminalKept_iff (w : World) (op : Op) : TerminalKept w op ↔ CancelsUnfinished w op := by
  by_cases hcancel : ∃ userId clientOrderId now, op = .markCanceled userId clientOrderId now
  · obtain ⟨userId, clientOrderId, now, rfl⟩ := hcancel
    simp only [TerminalKept, CancelsUnfinished, step, markCanceled, getElem?_update]
    constructor
    · intro h r hr huser hclient hterminal
      obtain ⟨i, hi⟩ := List.mem_iff_getElem?.1 hr
      obtain ⟨r', hr', hstatus⟩ := h i r hi hterminal
      rw [hi, Option.map_some, if_pos (by simp [huser, hclient])] at hr'
      rw [← hstatus, ← Option.some.inj hr']
    · intro h i r hi hterminal
      rw [hi, Option.map_some]
      refine ⟨_, rfl, ?_⟩
      split
      · rename_i hcond
        rw [Bool.and_eq_true] at hcond
        exact (h r (List.mem_of_getElem? hi) (eq_of_beq hcond.1) (eq_of_beq hcond.2) hterminal).symm
      · rfl
  · have hkept : TerminalKept w op := fun i r hi hr =>
      ⟨r, kept_of_not_cancel (fun u c n heq => hcancel ⟨u, c, n, heq⟩) hi hr, rfl⟩
    have hfree : CancelsUnfinished w op := by
      cases op with
      | markCanceled userId clientOrderId now => exact absurd ⟨_, _, _, rfl⟩ hcancel
      | _ => trivial
    exact iff_of_true hkept hfree

end terminal

/-! ## Open orders -/

/-- What a pass knows: of the orders that were there when it read the open ones, those it is going to mark are
closed. -/
def Informed (venue : Venue) (p : Pass) : Prop :=
  match p.progress with
  | .fetched remote => ∃ ids, remote = Reconcile.OpenOrders.openOrders ids ∧ (∀ id ∈ ids, 0 ≤ id ∧ id < 2 ^ 63) ∧
      ∀ v ∈ venue.take p.seen, v.account = p.account → v.isOpen → v.id ∈ ids
  | .patching q => (∀ v ∈ venue.take p.seen, v.account = p.account → v.id ∈ q.ids → v.isOpen = false) ∧
      ∀ a, q.answer = some a → a.2.1 ≠ .reconciledNotOpen

structure Inv (w : World) : Prop where
  /-- A row with an order id is that of an order. -/
  rows : ∀ r ∈ w.table, r.exchange = "binance" → ∀ id, r.venueOrderId = some id →
    ∃ v ∈ w.venue, v.account = ⟨r.userId, r.segment⟩ ∧ v.id = id
  placing : ∀ o ∈ w.placing, ∀ id, o.venueOrderId = some id →
    ∃ v ∈ w.venue, v.account = ⟨o.userId, o.segment⟩ ∧ v.id = id
  seen : ∀ n p, w.passes n = some p → p.seen ≤ w.venue.length
  informed : ∀ n p, w.passes n = some p → Informed w.venue p

section inv
variable {w : World} {op : Op} {venue : Venue} {p : Pass}

/-! ### The venue moves on -/

/-- Orders are only closed. -/
def Later (venue venue' : Venue) : Prop :=
  ∀ v' ∈ venue', ∃ v ∈ venue, v'.account = v.account ∧ v'.id = v.id ∧ (v'.isOpen → v.isOpen)

theorem later_close (venue : Venue) (a : Account) (id : ℤ) : Later venue (venue.close a id) := by
  intro v' hv'
  obtain ⟨v, hv, rfl⟩ := List.mem_map.1 hv'
  refine ⟨v, hv, ?_⟩
  split <;> simp

theorem Informed.later {venue' : Venue} (h : Informed venue p)
    (hlater : Later (venue.take p.seen) (venue'.take p.seen)) : Informed venue' p := by
  unfold Informed at h ⊢
  split at h
  · obtain ⟨ids, hremote, hrange, hopen⟩ := h
    refine ⟨ids, hremote, hrange, ?_⟩
    intro v' hv' haccount hisOpen
    obtain ⟨v, hv, ha, hid, ho⟩ := hlater v' hv'
    rw [hid]
    exact hopen v hv (ha ▸ haccount) (ho hisOpen)
  · refine ⟨?_, h.2⟩
    intro v' hv' haccount hid'
    obtain ⟨v, hv, ha, hid, ho⟩ := hlater v' hv'
    have hclosed := h.1 v hv (ha ▸ haccount) (hid ▸ hid')
    by_contra hopen
    rw [Bool.not_eq_false] at hopen
    rw [ho hopen] at hclosed
    cases hclosed

theorem Informed.place (h : Informed venue p) (hseen : p.seen ≤ venue.length) (v : VenueOrder) :
    Informed (venue ++ [v]) p := by
  apply h.later
  rw [List.take_append_of_le_length hseen]
  exact fun v' hv' => ⟨v', hv', rfl, rfl, fun h => h⟩

theorem Informed.close (h : Informed venue p) (a : Account) (id : ℤ) : Informed (venue.close a id) p := by
  apply h.later
  rw [Venue.close, ← List.map_take]
  exact later_close _ a id

/-! ### The steps of a pass -/

theorem informed_fetch (venue : Venue) (a : Account) (cfg : BinanceOpenOrdersPatchConfig) :
    Informed venue ⟨a, cfg, venue.length, .fetched (venue.openOrders a)⟩ := by
  refine ⟨_, rfl, ?_, ?_⟩
  · intro id hid
    obtain ⟨v, -, rfl⟩ := List.mem_map.1 hid
    exact v.id_range
  · intro v hv haccount hopen
    rw [List.take_length] at hv
    exact List.mem_map_of_mem (List.mem_filter.2 ⟨hv, by simp [haccount, hopen]⟩)

theorem informed_list {a : Account} {cfg : BinanceOpenOrdersPatchConfig} {seen : ℕ} {remote : Json}
    {table : OrderTable} {ids : List ℤ} (h : Informed venue ⟨a, cfg, seen, .fetched remote⟩)
    (hids : listedIds table a remote = some ids) :
    Informed venue ⟨a, cfg, seen, .patching ⟨ids, false, [], none, []⟩⟩ := by
  obtain ⟨openIds, rfl, hrange, hopen⟩ := h
  refine ⟨?_, by simp⟩
  intro v hv haccount hid
  have hnot := not_open_of_listed hrange hids v.id hid
  by_contra hisOpen
  rw [Bool.not_eq_false] at hisOpen
  exact hnot (hopen v hv haccount hisOpen)

theorem status_of_answer {json : Json} {st : OrderStatus}
    (h : exchangeOrderStatusFromBinanceJson json = some st) : st ≠ .reconciledNotOpen := by
  unfold exchangeOrderStatusFromBinanceJson at h
  simp only [Option.bind_eq_bind, Option.bind_eq_some_iff] at h
  obtain ⟨_, -, s, -, hs⟩ := h
  split at hs <;> cases hs <;> decide

theorem answered_ids (q : Patch) (reply : Option Json) : (q.answered reply).ids = q.ids := by
  unfold Patch.answered
  split
  · split <;> rfl
  · rfl

theorem answered_status {q : Patch} (reply : Option Json)
    (h : ∀ a, q.answer = some a → a.2.1 ≠ .reconciledNotOpen) :
    ∀ a, (q.answered reply).answer = some a → a.2.1 ≠ .reconciledNotOpen := by
  unfold Patch.answered
  split
  · rename_i hanswer _
    split
    · exact h
    · intro a ha
      simp only [Option.bind_eq_some_iff, Option.map_eq_some_iff] at ha
      obtain ⟨json, -, st, hst, rfl⟩ := ha
      exact status_of_answer hst
  · exact h

theorem forall_setPass {Q : Pass → Prop} {k : ℕ} {new : Option Pass} (hold : ∀ n p, w.passes n = some p → Q p)
    (hnew : ∀ p, new = some p → Q p) : ∀ n p, (w.setPass k new).passes n = some p → Q p := by
  intro n p hp
  by_cases hn : n = k
  · subst hn
    simp only [World.setPass, Function.update_self] at hp
    exact hnew p hp
  · simp only [World.setPass, Function.update_of_ne hn] at hp
    exact hold n p hp

/-- **A pass stays informed** whatever is done next. -/
theorem informed_step (h : Inv w) (op : Op) : ∀ n p, (step w op).passes n = some p →
    p.seen ≤ (step w op).venue.length ∧ Informed (step w op).venue p := by
  have hold : ∀ n p, w.passes n = some p → p.seen ≤ w.venue.length ∧ Informed w.venue p :=
    fun n p hp => ⟨h.seen n p hp, h.informed n p hp⟩
  cases op with
  | markCanceled userId clientOrderId now => exact hold
  | stream s userId m => exact hold
  | place v o =>
    simp only [step]
    split
    · exact hold
    · intro n p hp
      obtain ⟨hseen, hinformed⟩ := hold n p hp
      refine ⟨?_, hinformed.place hseen v⟩
      rw [List.length_append]
      exact hseen.trans (Nat.le_add_right _ _)
  | insertSubmitted i =>
    simp only [step]
    split <;> exact hold
  | close a id =>
    intro n p hp
    obtain ⟨hseen, hinformed⟩ := hold n p hp
    refine ⟨?_, hinformed.close a id⟩
    simp only [step, Venue.close, List.length_map]
    exact hseen
  | fetch n a cfg =>
    refine forall_setPass hold ?_
    rintro p ⟨rfl⟩
    exact ⟨le_rfl, informed_fetch w.venue a cfg⟩
  | list n =>
    simp only [step]
    split
    · rename_i a cfg seen remote hpass
      obtain ⟨hseen, hinformed⟩ := hold n _ hpass
      refine forall_setPass hold ?_
      intro p hp
      obtain ⟨ids, hids, rfl⟩ := Option.map_eq_some_iff.1 hp
      exact ⟨hseen, informed_list hinformed hids⟩
    · exact hold
  | pairs n =>
    simp only [step]
    split
    · rename_i a cfg seen q hpass
      obtain ⟨hseen, hinformed⟩ := hold n _ hpass
      split
      · refine forall_setPass hold ?_
        rintro p ⟨rfl⟩
        exact ⟨hseen, hinformed⟩
      · exact hold
    · exact hold
  | query n reply =>
    simp only [step]
    split
    · rename_i a cfg seen q hpass
      obtain ⟨hseen, hclosed, hstatus⟩ := hold n _ hpass
      refine forall_setPass hold ?_
      rintro p ⟨rfl⟩
      refine ⟨hseen, ?_, answered_status reply hstatus⟩
      simp only [answered_ids]
      exact hclosed
    · exact hold
  | refine n now =>
    simp only [step]
    split
    · rename_i a cfg seen q hpass
      obtain ⟨hseen, hclosed, hstatus⟩ := hold n _ hpass
      split
      · exact hold
      · refine forall_setPass (w := { w with table := _ }) hold ?_
        rintro p ⟨rfl⟩
        exact ⟨hseen, hclosed, by simp⟩
    · exact hold
  | mark n now =>
    simp only [step]
    split
    · split
      · exact forall_setPass (w := { w with table := _ }) hold (by simp)
      · exact hold
    · exact hold
  | fail n => exact forall_setPass hold (by simp)

/-! ### The rows -/

/-- The rows of one order. -/
def SameOrder (r r' : ExchangeOrderRow) : Prop :=
  r.userId = r'.userId ∧ r.exchange = r'.exchange ∧ r.segment = r'.segment ∧ r.venueOrderId = r'.venueOrderId

/-- The mark step of a pass takes the row. -/
def Marked (w : World) (op : Op) (r : ExchangeOrderRow) : Prop :=
  ∃ n now a cfg seen q, op = .mark n now ∧ w.passes n = some ⟨a, cfg, seen, .patching q⟩ ∧ q.refined cfg ∧
    (∃ id ∈ q.remaining cfg, r.isVenueOrder a.userId "binance" a.segment id) ∧ r.status = .submitted

theorem normalize_ne (raw : String) : normalizeBinanceOrderStatus raw ≠ .reconciledNotOpen := by
  unfold normalizeBinanceOrderStatus
  split <;> decide

theorem sameOrder_setVenueStatus (r : ExchangeOrderRow) (status : OrderStatus) (venueResponse : Json)
    (now : DateTime) : SameOrder r (setVenueStatus status venueResponse now r) := ⟨rfl, rfl, rfl, rfl⟩

theorem rowEvent_row (s : UserStream) (userId : Uuid) (m : Message) (r : ExchangeOrderRow) :
    SameOrder r (rowEvent s userId r m) ∧
      ((rowEvent s userId r m).status = .reconciledNotOpen → r.status = .reconciledNotOpen) := by
  unfold rowEvent
  split
  · exact ⟨⟨rfl, rfl, rfl, rfl⟩, fun h => h⟩
  · rename_i venueOrderId status _
    split
    · refine ⟨sameOrder_setVenueStatus r _ _ _, fun h => ?_⟩
      rw [setVenueStatus_status] at h
      exact absurd h (normalize_ne status)
    · exact ⟨⟨rfl, rfl, rfl, rfl⟩, fun h => h⟩

/-- The rows after a statement, when it gives no row that status outside a mark step. -/
theorem row_update {cond : ExchangeOrderRow → Bool} {set : ExchangeOrderRow → ExchangeOrderRow}
    {r' : ExchangeOrderRow} (hr' : r' ∈ (w.table.update cond set).1) (hset : ∀ r, SameOrder r (set r))
    (hstatus : ∀ r, cond r → (set r).status = .reconciledNotOpen → Marked w op r) :
    ∃ r ∈ w.table, SameOrder r r' ∧
      (r'.status = .reconciledNotOpen → r.status = .reconciledNotOpen ∨ Marked w op r) := by
  obtain ⟨r, hr, rfl⟩ := mem_update.1 hr'
  refine ⟨r, hr, ?_⟩
  split
  · rename_i hcond
    exact ⟨hset r, fun h => .inr (hstatus r hcond h)⟩
  · exact ⟨⟨rfl, rfl, rfl, rfl⟩, .inl⟩

/-- **Where a row comes from**: it is stored now, or it was there for the same order, and then only a mark step
makes it `reconciled_not_open`. -/
theorem row_step (h : Inv w) (op : Op) : ∀ r' ∈ (step w op).table, (∃ o ∈ w.placing, r' = o.row) ∨
    ∃ r ∈ w.table, SameOrder r r' ∧
      (r'.status = .reconciledNotOpen → r.status = .reconciledNotOpen ∨ Marked w op r) := by
  have hsame : ∀ r' ∈ w.table, (∃ o ∈ w.placing, r' = o.row) ∨ ∃ r ∈ w.table, SameOrder r r' ∧
      (r'.status = .reconciledNotOpen → r.status = .reconciledNotOpen ∨ Marked w op r) :=
    fun r' hr' => .inr ⟨r', hr', ⟨rfl, rfl, rfl, rfl⟩, .inl⟩
  by_cases hreads : op.reads
  · obtain ⟨passes, hstep⟩ := step_reads (w := w) hreads
    rw [hstep]
    exact hsame
  cases op with
  | place v o =>
    simp only [step]
    split <;> exact hsame
  | insertSubmitted i =>
    simp only [step]
    split
    · exact hsame
    · rename_i o ho
      cases hinsert : insertSubmitted w.table o with
      | none => exact hsame
      | some t =>
        intro r' hr'
        rcases (mem_insertSubmitted hinsert).1 hr' with hr' | rfl
        · exact hsame r' hr'
        · exact .inl ⟨o, List.mem_of_getElem? ho, rfl⟩
  | close a id => exact hsame
  | stream s userId m =>
    simp only [step, handleEvent_orders]
    intro r' hr'
    obtain ⟨r, hr, rfl⟩ := List.mem_map.1 hr'
    obtain ⟨horder, hstatus⟩ := rowEvent_row s userId m r
    exact .inr ⟨r, hr, horder, fun h => .inl (hstatus h)⟩
  | markCanceled userId clientOrderId now =>
    exact fun r' hr' => .inr (row_update hr' (fun _ => ⟨rfl, rfl, rfl, rfl⟩) (fun _ _ h => by cases h))
  | refine n now =>
    simp only [step]
    split
    · rename_i a cfg seen q hpass
      split
      · exact hsame
      · rename_i vid st json hanswer
        have hst : st ≠ .reconciledNotOpen := (h.informed n _ hpass).2 _ hanswer
        intro r' hr'
        exact .inr (row_update hr' (fun _ => ⟨rfl, rfl, rfl, rfl⟩) (fun _ _ h => absurd h hst))
    · exact hsame
  | mark n now =>
    simp only [step]
    split
    · rename_i a cfg seen q hpass
      split
      · rename_i hrefined
        intro r' hr'
        refine .inr (row_update hr' (fun _ => ⟨rfl, rfl, rfl, rfl⟩) ?_)
        intro r hcond _
        rw [Bool.and_eq_true, List.any_eq_true] at hcond
        obtain ⟨hids, hsubmitted⟩ := hcond
        exact ⟨n, now, a, cfg, seen, q, rfl, hpass, hrefined, hids, eq_of_beq hsubmitted⟩
      · exact hsame
    · exact hsame
  | _ => exact absurd rfl hreads

/-- The orders of the venue stay, a new one is not one of them, and what is placing is there. -/
theorem venue_step (w : World) (op : Op) :
    (∀ v ∈ w.venue, ∃ v' ∈ (step w op).venue, v'.account = v.account ∧ v'.id = v.id) ∧
      (∀ v' ∈ (step w op).venue, (∃ v ∈ w.venue, v'.account = v.account ∧ v'.id = v.id ∧ (v'.isOpen → v.isOpen)) ∨
        ∀ v ∈ w.venue, v.account = v'.account → v.id ≠ v'.id) ∧
      ∀ o ∈ (step w op).placing, o ∈ w.placing ∨
        ∃ v ∈ (step w op).venue, v.account = ⟨o.userId, o.segment⟩ ∧ o.venueOrderId = some v.id := by
  have hkept : ∀ v ∈ w.venue, ∃ v' ∈ w.venue, v'.account = v.account ∧ v'.id = v.id :=
    fun v hv => ⟨v, hv, rfl, rfl⟩
  have hold : ∀ v' ∈ w.venue, (∃ v ∈ w.venue, v'.account = v.account ∧ v'.id = v.id ∧ (v'.isOpen → v.isOpen)) ∨
      ∀ v ∈ w.venue, v.account = v'.account → v.id ≠ v'.id := fun v hv => .inl ⟨v, hv, rfl, rfl, fun h => h⟩
  by_cases hreads : op.reads
  · obtain ⟨passes, hstep⟩ := step_reads (w := w) hreads
    rw [hstep]
    exact ⟨hkept, hold, fun o ho => .inl ho⟩
  cases op with
  | place v o =>
    simp only [step]
    split
    · exact ⟨hkept, hold, fun o ho => .inl ho⟩
    · rename_i hfresh
      refine ⟨fun u hu => ⟨u, List.mem_append_left _ hu, rfl, rfl⟩, ?_, ?_⟩
      · intro v' hv'
        rcases List.mem_append.1 hv' with hv' | hv'
        · exact hold v' hv'
        · obtain rfl := List.mem_singleton.1 hv'
          refine .inr fun u hu haccount hid => hfresh ?_
          exact List.any_eq_true.2 ⟨u, hu, by simp [haccount, hid]⟩
      · intro o' ho'
        rcases List.mem_append.1 ho' with ho' | ho'
        · exact .inl ho'
        · obtain rfl := List.mem_singleton.1 ho'
          exact .inr ⟨v, by simp, rfl, rfl⟩
  | insertSubmitted i =>
    simp only [step]
    split
    · exact ⟨hkept, hold, fun o ho => .inl ho⟩
    · exact ⟨hkept, hold, fun o ho => .inl (List.mem_of_mem_eraseIdx ho)⟩
  | close a id =>
    refine ⟨?_, fun v' hv' => .inl (later_close w.venue a id v' hv'), fun o ho => .inl ho⟩
    intro v hv
    refine ⟨_, List.mem_map_of_mem hv, ?_⟩
    split <;> exact ⟨rfl, rfl⟩
  | stream s userId m => exact ⟨hkept, hold, fun o ho => .inl ho⟩
  | markCanceled userId clientOrderId now => exact ⟨hkept, hold, fun o ho => .inl ho⟩
  | refine n now =>
    simp only [step]
    split
    · split <;> exact ⟨hkept, hold, fun o ho => .inl ho⟩
    · exact ⟨hkept, hold, fun o ho => .inl ho⟩
  | mark n now =>
    simp only [step]
    split
    · split <;> exact ⟨hkept, hold, fun o ho => .inl ho⟩
    · exact ⟨hkept, hold, fun o ho => .inl ho⟩
  | _ => exact absurd rfl hreads

theorem inv_start : Inv .start where
  rows := by simp [World.start]
  placing := by simp [World.start]
  seen := by simp [World.start]
  informed := by simp [World.start]

theorem inv_step (h : Inv w) (op : Op) : Inv (step w op) where
  rows := by
    obtain ⟨hkept, -, -⟩ := venue_step w op
    intro r' hr' hexchange id hid
    rcases row_step h op r' hr' with ⟨o, ho, rfl⟩ | ⟨r, hr, ⟨huser, hexch, hseg, hven⟩, -⟩
    · obtain ⟨v, hv, haccount, hvid⟩ := h.placing o ho id hid
      obtain ⟨v', hv', haccount', hid'⟩ := hkept v hv
      exact ⟨v', hv', haccount'.trans haccount, hid'.trans hvid⟩
    · obtain ⟨v, hv, haccount, hvid⟩ := h.rows r hr (hexch.trans hexchange) id (hven.trans hid)
      obtain ⟨v', hv', haccount', hid'⟩ := hkept v hv
      refine ⟨v', hv', ?_, hid'.trans hvid⟩
      rw [haccount', haccount, huser, hseg]
  placing := by
    obtain ⟨hkept, -, hplacing⟩ := venue_step w op
    intro o ho id hid
    rcases hplacing o ho with hold | ⟨v, hv, haccount, hvid⟩
    · obtain ⟨v, hv, haccount, hvid⟩ := h.placing o hold id hid
      obtain ⟨v', hv', haccount', hid'⟩ := hkept v hv
      exact ⟨v', hv', haccount'.trans haccount, hid'.trans hvid⟩
    · exact ⟨v, hv, haccount, Option.some.inj (hvid.symm.trans hid)⟩
  seen n p hp := (informed_step h op n p hp).1
  informed n p hp := (informed_step h op n p hp).2

theorem names_iff {v : VenueOrder} {r : ExchangeOrderRow} : v.names r = true ↔
    r.userId = v.account.userId ∧ r.exchange = "binance" ∧ r.segment = v.account.segment ∧
      r.venueOrderId = some v.id := by
  simp [VenueOrder.names, ExchangeOrderRow.isVenueOrder, and_assoc]

theorem venue_mark (w : World) (n : ℕ) (now : DateTime) : (step w (.mark n now)).venue = w.venue := by
  simp only [step]
  split
  · split <;> rfl
  · rfl

/-- A good step takes no open order for closed. -/
theorem noOpenReconciled_step (h : Inv w) (hclosed : NoOpenReconciled w) (hgood : MarksNoNewcomer w op) :
    NoOpenReconciled (step w op) := by
  obtain ⟨-, hvenue, -⟩ := venue_step w op
  intro r' hr' hstatus v' hv' hnames
  obtain ⟨huser', hexchange', hsegment', hid'⟩ := names_iff.1 hnames
  rcases row_step h op r' hr' with ⟨o, ho, rfl⟩ | ⟨r, hr, ⟨huser, hexchange, hsegment, hid⟩, hmarked⟩
  · cases hstatus
  rcases hmarked hstatus with hbefore | ⟨n, now, a, cfg, seen, q, rfl, hpass, hrefined, ⟨id, hmem, horder⟩, hsub⟩
  · rcases hvenue v' hv' with ⟨v, hv, haccount, hvid, hopen⟩ | hnew
    · have hnamed : v.names r = true :=
        names_iff.2 ⟨by rw [huser, huser', haccount], by rw [hexchange, hexchange'],
          by rw [hsegment, hsegment', haccount], by rw [hid, hid', hvid]⟩
      have hfalse := hclosed r hr hbefore v hv hnamed
      by_contra htrue
      rw [hopen (by simpa using htrue)] at hfalse
      cases hfalse
    · -- the order was there before its row
      obtain ⟨v, hv, haccount, hvid⟩ := h.rows r hr (hexchange.trans hexchange') v'.id (hid.trans hid')
      refine absurd hvid (hnew v hv ?_)
      rw [haccount, huser, hsegment, huser', hsegment']
  · -- the row is marked in this step
    rw [venue_mark] at hv'
    simp only [ExchangeOrderRow.isVenueOrder, Bool.and_eq_true, beq_iff_eq] at horder
    obtain ⟨⟨⟨huserA, -⟩, hsegmentA⟩, hidA⟩ := horder
    have haccount : v'.account = a := by
      obtain ⟨userId, segment⟩ := a
      cases hv : v'.account
      simp_all
    have hid'' : v'.id = id := Option.some.inj (hid'.symm.trans (hid.symm.trans hidA))
    have hids : v'.id ∈ q.ids := by
      rw [hid'']
      unfold Patch.remaining at hmem
      split at hmem
      · exact (List.mem_filter.1 hmem).1
      · cases hmem
    rw [← List.take_append_drop seen w.venue] at hv'
    rcases List.mem_append.1 hv' with hseen | hlate
    · exact (h.informed n _ hpass).1 v' hseen haccount hids
    · simp only [MarksNoNewcomer, hpass] at hgood
      by_contra hopen
      refine hgood hrefined v' hlate haccount (by simpa using hopen) (hid'' ▸ hmem) r hr ?_ hsub
      exact names_iff.2 ⟨huser.trans huser', hexchange.trans hexchange', hsegment.trans hsegment', hid.trans hid'⟩

/-- A bad one takes one. -/
theorem noOpenReconciled_bad (hbad : ¬ MarksNoNewcomer w op) : ¬ NoOpenReconciled (step w op) := by
  cases op with
  | mark n now =>
    unfold MarksNoNewcomer at hbad
    simp only at hbad
    split at hbad
    · rename_i a cfg seen q hpass
      simp only [not_forall, not_not, exists_prop] at hbad
      obtain ⟨hrefined, v, hlate, rfl, hopen, hmem, r, hr, hnames, hsub⟩ := hbad
      intro hclosed
      have hmarked : { r with status := .reconciledNotOpen, updatedAt := now } ∈ (step w (.mark n now)).table := by
        simp only [step, hpass, hrefined, if_true]
        refine mem_update.2 ⟨r, hr, if_pos ?_⟩
        rw [Bool.and_eq_true, List.any_eq_true]
        exact ⟨⟨v.id, hmem, hnames⟩, by simp [hsub]⟩
      have hvenue : v ∈ (step w (.mark n now)).venue := by
        rw [venue_mark]
        exact List.mem_of_mem_drop hlate
      have hfalse := hclosed _ hmarked rfl v hvenue hnames
      rw [hopen] at hfalse
      cases hfalse
    · exact absurd trivial hbad
  | _ => exact absurd trivial hbad

end inv

/-- **The writers of a row**: over any run, a final status stays and no order that is open since it was placed is
marked `reconciled_not_open`, exactly when no cancel comes for an order that ended otherwise and no patch marks
a newcomer. -/
theorem writers_iff (ops : List Op) :
    AllSteps step TerminalKept .start ops ∧ AllStates step NoOpenReconciled .start ops ↔
      AllSteps step (fun w op => CancelsUnfinished w op ∧ MarksNoNewcomer w op) .start ops := by
  have hkept : AllSteps step TerminalKept .start ops ↔ AllSteps step CancelsUnfinished .start ops :=
    allSteps_congr (J := fun _ => True) (K := fun _ => True) (fun _ _ _ _ => trivial)
      (fun w op _ _ => terminalKept_iff w op) trivial fun _ _ => trivial
  have hopen : AllStates step NoOpenReconciled .start ops ↔ AllSteps step MarksNoNewcomer .start ops := by
    apply allStates_iff_allSteps (J := fun w => Inv w ∧ NoOpenReconciled w) (K := fun _ => True)
    · exact fun w hw => hw.2
    · exact fun w op hw _ hgood => ⟨inv_step hw.1 op, noOpenReconciled_step hw.1 hw.2 hgood⟩
    · exact fun w op _ _ hbad => noOpenReconciled_bad hbad
    · exact ⟨inv_start, by simp [NoOpenReconciled, World.start]⟩
    · exact fun _ _ => trivial
  rw [hkept, hopen, allSteps_and]

/-! ## An order between two reads -/

def spotAccount : Account := ⟨3, "spot"⟩

def restingOrder : VenueOrder := ⟨spotAccount, 7, true, by decide⟩

def restingRow : NewOrder where
  id := 1
  orgId := 2
  userId := 3
  exchange := "binance"
  segment := "spot"
  symbol := "BTCUSDT"
  clientOrderId := 4
  intent := .obj [("side", .str "buy")]
  venueOrderId := some 7
  venueResponse := none
  now := 0

/-- A pass reads the open orders, the order is placed and its row stored, and the pass reads the rows. The order
is open, and the row says it is not. -/
theorem placed_between_the_reads :
    let w := run step .start [.fetch 0 spotAccount (.worker false 30 true), .place restingOrder restingRow,
      .insertSubmitted 0, .list 0, .mark 0 1]
    w.table.map (fun r => (r.venueOrderId, r.status)) = [(some 7, .reconciledNotOpen)] ∧ w.venue = [restingOrder] := by
  decide +kernel

end Qtss.Worker.OrderWriters
