import Qtss.Audit.Chain
/-
# Appends to the table at once (`qtss-audit/src/sink.rs`)

| here | there |
| --- | --- |
| `Table`             | `qtss_audit_log` (migrations/0015): the rows from the last one on, each with the transaction that has not committed it yet; `row_hash` is unique and triggers keep rows from being changed |
| `Op`, `step`        | `PgAuditSink::append` (sink.rs:38) of any number of writers, statement by statement, under READ COMMITTED |
| `stored`            | an event after the INSERT and the SELECT; `column` is what `serde_json` makes of the JSONB text of a payload, none where JSONB takes no such text |
| `readAll`           | `read_all` (sink.rs:84): the committed rows by their ids, which are in the order of the INSERTs |

`SELECT … ORDER BY id DESC LIMIT 1 FOR UPDATE` picks the row with the snapshot of the statement and then waits until no
other transaction has it locked. The row is as it was when the wait is over, so that it is returned even if there is a
newer one by then, and without any row there is nothing to wait for. The writers are kept apart, but not from reading the
same tip. With payloads that come back as they were hashed (`Survives`: a float may not) that is all that can go wrong
(`verifyChain_readAll_iff`), and it does: `fork_forever`.
-/

namespace Qtss.Audit.Writers
open HashChain Runs

/-- How far the transaction of a writer is. -/
inductive Writer where
  | idle
  | waiting (tip : AuditRecord) (evt : NewAuditEvent)
  | selected (prevHash : Option Bytes) (evt : NewAuditEvent)
  | inserted

abbrev Log := List (AuditRecord × Option ℕ)

structure Table where
  nextId : ℤ
  log : Log
  /-- The ids of locked rows, and the writers that have them. -/
  locks : List (ℤ × ℕ)
  writers : ℕ → Writer

inductive Op where
  | begins (w : ℕ) (evt : NewAuditEvent)
  | lock (w : ℕ)
  | insert (w : ℕ) (now : ℤ)
  | commit (w : ℕ)
  | rollback (w : ℕ)

/-- From the last row on. -/
def committed (log : Log) : List AuditRecord := (log.filter (·.2.isNone)).map (·.1)

def commitRows (w : ℕ) (log : Log) : Log := log.map fun x => if x.2 = some w then (x.1, none) else x

def dropRows (w : ℕ) (log : Log) : Log := log.filter (·.2 ≠ some w)

namespace Table

def start : Table := ⟨1, [], [], fun _ => .idle⟩

def readAll (s : Table) : List AuditRecord := (committed s.log).reverse

def set (s : Table) (w : ℕ) (writer : Writer) : Table := { s with writers := Function.update s.writers w writer }

/-- The end of a transaction. -/
def finish (s : Table) (w : ℕ) (log : Log) : Table :=
  { s with log := log, locks := s.locks.filter (·.2 ≠ w) }.set w .idle

end Table

/-- As it is read later; none where it is refused, as a text with a zero is. -/
def stored (column : Json → Option Json) (evt : NewAuditEvent) : Option NewAuditEvent :=
  if '\x00' ∈ evt.actor.toList ∨ '\x00' ∈ evt.action.toList ∨ '\x00' ∈ evt.subject.toList then none
  else (column evt.payload).map fun payload => { evt with payload := payload }

/-- The row of the event, of which `kept` is stored. -/
def newRow (env : Env) (id now : ℤ) (prevHash : Option Bytes) (evt kept : NewAuditEvent) : AuditRecord where
  id := id
  at_ := now
  actor := kept.actor
  action := kept.action
  subject := kept.subject
  payload := kept.payload
  correlationId := kept.correlationId
  prevHash := prevHash
  rowHash := hashRow env prevHash (canonicalPayload env.floatText evt)

def step (env : Env) (column : Json → Option Json) (s : Table) : Op → Table
  | .begins w evt =>
    match s.writers w with
    | .idle =>
      match (committed s.log).head? with
      | some tip => s.set w (.waiting tip evt)
      | none => s.set w (.selected none evt)
    | _ => s
  | .lock w =>
    match s.writers w with
    | .waiting tip evt =>
      if s.locks.any (·.1 = tip.id) then s
      else { s with locks := (tip.id, w) :: s.locks }.set w (.selected (some tip.rowHash) evt)
    | _ => s
  | .insert w now =>
    match s.writers w with
    | .selected prevHash evt =>
      match stored column evt with
      | none => s.finish w s.log
      | some kept =>
        let row := newRow env s.nextId now prevHash evt kept
        match s.log.find? (·.1.rowHash = row.rowHash) with
        | none => { s with nextId := s.nextId + 1, log := (row, some w) :: s.log }.set w .inserted
        -- a second row with the hash waits for the end of the transaction with the first, and fails if it was committed
        | some (_, some _) => s
        | some (_, none) => { s with nextId := s.nextId + 1 }.finish w s.log
    | _ => s
  | .commit w =>
    match s.writers w with
    | .inserted => s.finish w (commitRows w s.log)
    | _ => s
  | .rollback w => s.finish w (dropRows w s.log)

/-! ## Rows -/

section rows
variable {log : Log} {r : AuditRecord} {w : ℕ} {x : AuditRecord × Option ℕ}

@[simp] theorem committed_nil : committed [] = [] := rfl

@[simp] theorem committed_cons_none : committed ((r, none) :: log) = r :: committed log := rfl

@[simp] theorem committed_cons_some : committed ((r, some w) :: log) = committed log := rfl

theorem mem_committed : r ∈ committed log ↔ (r, none) ∈ log := by
  simp [committed]

theorem committed_dropRows : committed (dropRows w log) = committed log := by
  rw [committed, dropRows, List.filter_filter, committed]
  congr 2
  funext x
  cases hx : x.2 <;> simp

theorem committed_sublist (w : ℕ) (log : Log) : (committed log).Sublist (committed (commitRows w log)) := by
  induction log with
  | nil => exact List.Sublist.refl _
  | cons x log ih =>
    obtain ⟨r, owner⟩ := x
    cases owner with
    | none => exact ih.cons_cons r
    | some v =>
      by_cases hv : v = w
      · rw [show commitRows w ((r, some v) :: log) = (r, none) :: commitRows w log by simp [commitRows, hv]]
        exact ih.cons r
      · rw [show commitRows w ((r, some v) :: log) = (r, some v) :: commitRows w log by simp [commitRows, hv]]
        exact ih

theorem map_commitRows {β : Type} (f : AuditRecord → β) (w : ℕ) (log : Log) :
    (commitRows w log).map (fun x => f x.1) = log.map fun x => f x.1 := by
  rw [commitRows, List.map_map]
  congr 1
  funext x
  simp only [Function.comp]
  split <;> rfl

theorem exists_of_mem_commitRows (h : x ∈ commitRows w log) :
    ∃ owner, (x.1, owner) ∈ log ∧ (x.2 = none ∨ x.2 = owner ∧ owner ≠ some w) := by
  obtain ⟨y, hy, rfl⟩ := List.mem_map.1 h
  split
  · exact ⟨y.2, hy, .inl rfl⟩
  · next hne => exact ⟨y.2, hy, .inr ⟨rfl, hne⟩⟩

/-- Each row carries the hash of a row that was committed before, or none. -/
def Backed : Log → Prop
  | [] => True
  | x :: older => x.1.prevHash ∈ none :: (committed older).map (some ∘ AuditRecord.rowHash) ∧ Backed older

theorem Backed.commitRows (h : Backed log) (w : ℕ) : Backed (commitRows w log) := by
  induction log with
  | nil => trivial
  | cons x log ih =>
    refine ⟨?_, ih h.2⟩
    have hsub := ((committed_sublist w log).map (some ∘ AuditRecord.rowHash)).cons_cons none
    have hmem := hsub.subset h.1
    show (if x.2 = some w then (x.1, none) else x).1.prevHash ∈ _
    split <;> exact hmem

theorem Backed.dropRows (h : Backed log) (w : ℕ) : Backed (dropRows w log) := by
  induction log with
  | nil => trivial
  | cons x log ih =>
    by_cases hx : x.2 = some w
    · rw [Writers.dropRows, List.filter_cons_of_neg (by simp [hx])]
      exact ih h.2
    · rw [Writers.dropRows, List.filter_cons_of_pos (by simp [hx])]
      refine ⟨?_, ih h.2⟩
      rw [← Writers.dropRows, committed_dropRows]
      exact h.1

theorem Backed.pointsBack (env : Env) (h : Backed log) : PointsBack (scheme env) (committed log).reverse := by
  induction log with
  | nil =>
    intro pre r post hsplit
    exact absurd hsplit (by simp)
  | cons x log ih =>
    obtain ⟨r, owner⟩ := x
    cases owner with
    | some w => exact ih h.2
    | none =>
      rw [committed_cons_none, List.reverse_cons]
      refine (ih h.2).concat ?_
      simpa [scheme] using h.1

end rows

/-! ## The invariant -/

structure Inv (s : Table) : Prop where
  backed : Backed s.log
  unique : (s.log.map fun x => x.1.rowHash).Nodup
  /-- The order of the rows is that of their ids. -/
  ids : (s.log.map fun x => x.1.id).Pairwise (· > ·)
  fresh : ∀ x ∈ s.log, x.1.id < s.nextId
  waits : ∀ w tip evt, s.writers w = .waiting tip evt → tip ∈ committed s.log
  selects : ∀ w d evt, s.writers w = .selected (some d) evt → ∃ r ∈ committed s.log, r.rowHash = d
  owned : ∀ x ∈ s.log, ∀ w ∈ x.2, s.writers w = .inserted
  locked : ∀ l ∈ s.locks, s.writers l.2 ≠ .idle

variable {env : Env} {column : Json → Option Json} {s : Table} {op : Op} {w : ℕ} {writer : Writer}

theorem inv_start : Inv .start where
  backed := trivial
  unique := List.nodup_nil
  ids := List.Pairwise.nil
  fresh _ h := nomatch h
  waits _ _ _ h := nomatch h
  selects _ _ _ h := nomatch h
  owned _ h := nomatch h
  locked _ h := nomatch h

@[simp] theorem set_log : (s.set w writer).log = s.log := rfl

@[simp] theorem set_locks : (s.set w writer).locks = s.locks := rfl

@[simp] theorem set_nextId : (s.set w writer).nextId = s.nextId := rfl

@[simp] theorem set_writers (v : ℕ) : (s.set w writer).writers v = if v = w then writer else s.writers v := by
  simp only [Table.set, Function.update_apply]

/-- A transaction that goes on, from and to a phase without a row of its own. -/
theorem Inv.set (h : Inv s) (hfrom : s.writers w ≠ .inserted) (hidle : writer ≠ .idle)
    (hwaits : ∀ tip evt, writer = .waiting tip evt → tip ∈ committed s.log)
    (hselects : ∀ d evt, writer = .selected (some d) evt → ∃ r ∈ committed s.log, r.rowHash = d) :
    Inv (s.set w writer) where
  backed := h.backed
  unique := h.unique
  ids := h.ids
  fresh := h.fresh
  waits v tip evt hv := by
    rw [set_writers] at hv
    split at hv
    · exact hwaits tip evt hv
    · exact h.waits v tip evt hv
  selects v d evt hv := by
    rw [set_writers] at hv
    split at hv
    · exact hselects d evt hv
    · exact h.selects v d evt hv
  owned x hx v hv := by
    have hinserted := h.owned x hx v hv
    rw [set_writers, if_neg (by rintro rfl; exact hfrom hinserted)]
    exact hinserted
  locked l hl := by
    rw [set_writers]
    split
    · exact hidle
    · exact h.locked l hl

/-- A transaction ends: its rows are committed or dropped. -/
theorem Inv.finish {log : Log} (h : Inv s) (hbacked : Backed log)
    (hrows : ∀ x ∈ log, ∃ owner, (x.1, owner) ∈ s.log ∧ (x.2 = none ∨ x.2 = owner ∧ owner ≠ some w))
    (hunique : (log.map fun x => x.1.rowHash).Nodup) (hids : (log.map fun x => x.1.id).Pairwise (· > ·))
    (hcommitted : ∀ r ∈ committed s.log, r ∈ committed log) : Inv (s.finish w log) where
  backed := hbacked
  unique := hunique
  ids := hids
  fresh x hx := by
    obtain ⟨owner, hmem, -⟩ := hrows x hx
    exact h.fresh (x.1, owner) hmem
  waits v tip evt hv := by
    rw [Table.finish, set_writers] at hv
    split at hv
    · cases hv
    · exact hcommitted tip (h.waits v tip evt hv)
  selects v d evt hv := by
    rw [Table.finish, set_writers] at hv
    split at hv
    · cases hv
    · obtain ⟨r, hr, hd⟩ := h.selects v d evt hv
      exact ⟨r, hcommitted r hr, hd⟩
  owned x hx v hv := by
    obtain ⟨owner, hmem, hnone | ⟨howner, hne⟩⟩ := hrows x hx
    · rw [hnone] at hv
      cases hv
    · rw [howner] at hv
      rw [Table.finish, set_writers, if_neg (fun hvw => hne (by rw [← hvw]; exact hv))]
      exact h.owned (x.1, owner) hmem v hv
  locked l hl := by
    obtain ⟨hmem, hne⟩ := List.mem_filter.1 hl
    rw [Table.finish, set_writers, if_neg (by simpa using hne)]
    exact h.locked l hmem

theorem Inv.commit (h : Inv s) (w : ℕ) : Inv (s.finish w (commitRows w s.log)) := by
  refine h.finish (h.backed.commitRows w) (fun x hx => exists_of_mem_commitRows hx) ?_ ?_ ?_
  · rw [map_commitRows]
    exact h.unique
  · rw [map_commitRows]
    exact h.ids
  · exact fun r hr => (committed_sublist w s.log).subset hr

theorem Inv.rollback (h : Inv s) (w : ℕ) : Inv (s.finish w (dropRows w s.log)) := by
  have hsub : (dropRows w s.log).Sublist s.log := List.filter_sublist
  refine h.finish (h.backed.dropRows w) (fun x hx => ?_) (h.unique.sublist (hsub.map _)) (h.ids.sublist (hsub.map _)) ?_
  · obtain ⟨hmem, hne⟩ := List.mem_filter.1 hx
    exact ⟨x.2, hmem, .inr ⟨rfl, by simpa using hne⟩⟩
  · rw [committed_dropRows]
    exact fun r hr => hr

/-- A row that is not there yet is written. -/
theorem Inv.insert (h : Inv s) {prevHash : Option Bytes} {evt kept : NewAuditEvent} (now : ℤ)
    (hw : s.writers w = .selected prevHash evt)
    (hnew : ∀ x ∈ s.log, x.1.rowHash ≠ (newRow env s.nextId now prevHash evt kept).rowHash) :
    Inv ({ s with
      nextId := s.nextId + 1
      log := (newRow env s.nextId now prevHash evt kept, some w) :: s.log }.set w .inserted) where
  backed := by
    refine ⟨?_, h.backed⟩
    cases prevHash with
    | none => exact List.mem_cons_self
    | some d =>
      obtain ⟨r, hr, rfl⟩ := h.selects w d evt hw
      exact List.mem_cons_of_mem _ (List.mem_map.2 ⟨r, hr, rfl⟩)
  unique := by
    rw [set_log, List.map_cons, List.nodup_cons]
    refine ⟨fun hmem => ?_, h.unique⟩
    obtain ⟨x, hx, heq⟩ := List.mem_map.1 hmem
    exact hnew x hx heq
  ids := by
    rw [set_log, List.map_cons, List.pairwise_cons]
    refine ⟨fun i hi => ?_, h.ids⟩
    obtain ⟨x, hx, rfl⟩ := List.mem_map.1 hi
    exact h.fresh x hx
  fresh := by
    refine List.forall_mem_cons.2 ⟨Int.lt_succ _, fun x hx => ?_⟩
    exact (h.fresh x hx).trans (Int.lt_succ _)
  waits v tip evt hv := by
    rw [set_writers] at hv
    split at hv
    · cases hv
    · exact h.waits v tip evt hv
  selects v d evt hv := by
    rw [set_writers] at hv
    split at hv
    · cases hv
    · exact h.selects v d evt hv
  owned := by
    refine List.forall_mem_cons.2 ⟨fun v hv => ?_, fun x hx v hv => ?_⟩
    · obtain rfl := Option.some.inj hv
      rw [set_writers, if_pos rfl]
    · rw [set_writers]
      split
      · rfl
      · exact h.owned x hx v hv
  locked l hl := by
    rw [set_writers]
    split
    · nofun
    · exact h.locked l hl

theorem Inv.nextId (h : Inv s) : Inv { s with nextId := s.nextId + 1 } :=
  { h with fresh := fun x hx => (h.fresh x hx).trans (Int.lt_succ _) }

theorem Inv.step (h : Inv s) (op : Op) : Inv (step env column s op) := by
  unfold Writers.step
  cases op with
  | begins w evt =>
    dsimp only
    split
    · next hw =>
      split
      · next tip htip =>
        have hmem : tip ∈ committed s.log := List.mem_of_head? htip
        refine h.set (by rw [hw]; nofun) (by nofun) (fun tip' evt' heq => ?_) (by nofun)
        cases heq
        exact hmem
      · exact h.set (by rw [hw]; nofun) (by nofun) (by nofun) (by nofun)
    · exact h
  | lock w =>
    dsimp only
    split
    · next tip evt hw =>
      split
      · exact h
      · have hlocks : Inv { s with locks := (tip.id, w) :: s.locks } :=
          { h with locked := List.forall_mem_cons.2 ⟨by rw [hw]; nofun, h.locked⟩ }
        refine hlocks.set (by rw [show _ = _ from hw]; nofun) (by nofun) (by nofun) (fun d evt' heq => ?_)
        cases heq
        exact ⟨tip, h.waits w tip evt hw, rfl⟩
    · exact h
  | insert w now =>
    dsimp only
    split
    · next prevHash evt hw =>
      have hother : ∀ x ∈ s.log, x.2 ≠ some w := by
        intro x hx howner
        have hinserted := h.owned x hx w howner
        rw [hw] at hinserted
        cases hinserted
      split
      · exact h.finish h.backed (fun x hx => ⟨x.2, hx, .inr ⟨rfl, hother x hx⟩⟩) h.unique h.ids fun r hr => hr
      split
      · next hfind => exact h.insert now hw (by simpa using hfind)
      · exact h
      · exact h.nextId.finish h.backed (fun x hx => ⟨x.2, hx, .inr ⟨rfl, hother x hx⟩⟩) h.unique h.ids fun r hr => hr
    · exact h
  | commit w =>
    dsimp only
    split
    · exact h.commit w
    · exact h
  | rollback w => exact h.rollback w

theorem inv_run (env : Env) (column : Json → Option Json) (ops : List Op) : Inv (run (step env column) .start ops) :=
  run_invariant (K := fun _ => True) (fun _ op h _ => h.step op) inv_start fun _ _ => trivial

/-! ## What comes back -/

/-- What is stored of the event has the text that was hashed. -/
def Survives (env : Env) (column : Json → Option Json) (evt : NewAuditEvent) : Prop :=
  ∀ kept ∈ stored column evt, canonicalPayload env.floatText kept = canonicalPayload env.floatText evt

def Op.Survives (env : Env) (column : Json → Option Json) (op : Op) : Prop :=
  ∀ w evt, op = .begins w evt → Writers.Survives env column evt

def Writer.Survives (env : Env) (column : Json → Option Json) : Writer → Prop
  | .waiting _ evt => Writers.Survives env column evt
  | .selected _ evt => Writers.Survives env column evt
  | _ => True

structure Kept (env : Env) (column : Json → Option Json) (s : Table) : Prop where
  sealed : ∀ x ∈ s.log, Sealed (scheme env) x.1
  writers : ∀ w, (s.writers w).Survives env column

theorem kept_start : Kept env column .start where
  sealed _ h := nomatch h
  writers _ := trivial

theorem Kept.set (h : Kept env column s) (hwriter : writer.Survives env column) : Kept env column (s.set w writer) := by
  refine ⟨h.sealed, fun v => ?_⟩
  rw [set_writers]
  split
  · exact hwriter
  · exact h.writers v

theorem Kept.finish {log : Log} (h : Kept env column s) (hsealed : ∀ x ∈ log, Sealed (scheme env) x.1) :
    Kept env column (s.finish w log) :=
  Kept.set (s := { s with log := log, locks := s.locks.filter (·.2 ≠ w) }) ⟨hsealed, h.writers⟩ trivial

theorem sealed_newRow {prevHash : Option Bytes} {evt kept : NewAuditEvent} {id now : ℤ} (h : Survives env column evt)
    (hkept : stored column evt = some kept) : Sealed (scheme env) (newRow env id now prevHash evt kept) := by
  have htext := h kept hkept
  show hashRow env prevHash (canonicalPayload env.floatText evt) = hashRow env prevHash (canonicalPayload env.floatText kept)
  rw [htext]

theorem Kept.step (h : Kept env column s) (hop : op.Survives env column) : Kept env column (step env column s op) := by
  unfold Writers.step
  cases op with
  | begins w evt =>
    have hevt := hop w evt rfl
    dsimp only
    split
    · split
      · exact h.set hevt
      · exact h.set hevt
    · exact h
  | lock w =>
    have hw := h.writers w
    dsimp only
    split
    · next tip evt hwaiting =>
      rw [hwaiting] at hw
      split
      · exact h
      · exact Kept.set (s := { s with locks := (tip.id, w) :: s.locks }) ⟨h.sealed, h.writers⟩ hw
    · exact h
  | insert w now =>
    have hw := h.writers w
    dsimp only
    split
    · next prevHash evt hselected =>
      rw [hselected] at hw
      split
      · exact h.finish h.sealed
      · next kept hkept =>
        split
        · exact Kept.set (s := { s with
              nextId := s.nextId + 1
              log := (newRow env s.nextId now prevHash evt kept, some w) :: s.log })
            ⟨List.forall_mem_cons.2 ⟨sealed_newRow hw hkept, h.sealed⟩, h.writers⟩ trivial
        · exact h
        · exact Kept.finish (s := { s with nextId := s.nextId + 1 }) ⟨h.sealed, h.writers⟩ h.sealed
    · exact h
  | commit w =>
    dsimp only
    split
    · refine h.finish fun x hx => ?_
      obtain ⟨owner, hmem, -⟩ := exists_of_mem_commitRows hx
      exact h.sealed (x.1, owner) hmem
    · exact h
  | rollback w => exact h.finish fun x hx => h.sealed x (List.mem_filter.1 hx).1

theorem kept_run {ops : List Op} (hops : ∀ op ∈ ops, op.Survives env column) :
    Kept env column (run (step env column) .start ops) :=
  run_invariant (fun _ _ h hop => h.step hop) kept_start hops

/-! ## The table and the verifier -/

theorem Inv.readAll_ids (h : Inv s) : (s.readAll.map (·.id)).Pairwise (· < ·) := by
  rw [Table.readAll, List.map_reverse, List.pairwise_reverse, committed, List.map_map]
  exact h.ids.sublist (List.filter_sublist.map _)

theorem Inv.unique_readAll (h : Inv s) : (s.readAll.map (·.rowHash)).Nodup := by
  have hsub : ((committed s.log).map (·.rowHash)).Sublist (s.log.map fun x => x.1.rowHash) := by
    rw [committed, List.map_map]
    exact List.filter_sublist.map _
  rw [Table.readAll, List.map_reverse, List.nodup_reverse]
  exact h.unique.sublist hsub

theorem Inv.verifyChain_iff (h : Inv s) : verifyChain env s.readAll = .ok () ↔
    (s.readAll.map (·.prevHash)).Nodup ∧ ∀ r ∈ s.readAll, Sealed (scheme env) r := by
  rw [Audit.verifyChain_iff]
  constructor
  · exact fun hlinked => ⟨hlinked.nodup_prev h.unique_readAll, hlinked.sealed⟩
  · exact fun ⟨hnodup, hsealed⟩ => linked_of_nodup (h.backed.pointsBack env) hsealed hnodup

theorem Kept.readAll (h : Kept env column s) : ∀ r ∈ s.readAll, Sealed (scheme env) r := fun r hr =>
  h.sealed (r, none) (mem_committed.1 (List.mem_reverse.1 hr))

/-- **Accepted exactly without a fork**: no two rows were appended to the same row, and no two to the empty table. But for
that, each row has to come back with the text that was hashed. -/
theorem verifyChain_readAll_iff (env : Env) (column : Json → Option Json) (ops : List Op) :
    let s := run (step env column) .start ops
    (s.readAll.map (·.id)).Pairwise (· < ·) ∧
      (verifyChain env s.readAll = .ok () ↔ (s.readAll.map (·.prevHash)).Nodup ∧
        ∀ r ∈ s.readAll, r.rowHash = hashRow env r.prevHash (canonicalPayload env.floatText r.event)) ∧
      ((∀ w evt, .begins w evt ∈ ops → Survives env column evt) →
        (verifyChain env s.readAll = .ok () ↔ (s.readAll.map (·.prevHash)).Nodup)) := by
  intro s
  refine ⟨(inv_run env column ops).readAll_ids, (inv_run env column ops).verifyChain_iff, fun hops => ?_⟩
  have hkept : Kept env column s := kept_run fun op hop w evt heq => hops w evt (heq ▸ hop)
  rw [(inv_run env column ops).verifyChain_iff]
  exact and_iff_left hkept.readAll

theorem survives_some (evt : NewAuditEvent) : Survives env some evt := by
  intro kept hkept
  unfold stored at hkept
  split at hkept
  · cases hkept
  · obtain rfl := Option.some.inj hkept
    rfl

/-- An append after another. -/
def inTurn (e e' : NewAuditEvent) : List Op :=
  [.begins 0 e, .insert 0 0, .commit 0, .begins 1 e', .lock 1, .insert 1 0, .commit 1]

theorem verifyChain_readAll_keySet :
    verifyChain testEnv (run (step testEnv some) .start (inTurn (keySet 0) (keySet 1))).readAll = .ok () ↔
      ((run (step testEnv some) .start (inTurn (keySet 0) (keySet 1))).readAll.map (·.prevHash)).Nodup :=
  (verifyChain_readAll_iff testEnv some (inTurn (keySet 0) (keySet 1))).2.2 fun _ evt _ => survives_some evt

/-- Committed rows stay. -/
theorem committed_step (s : Table) (op : Op) : (committed s.log).Sublist (committed (step env column s op).log) := by
  unfold step
  cases op with
  | commit w =>
    dsimp only
    split
    · exact committed_sublist w s.log
    · exact List.Sublist.refl _
  | rollback w =>
    rw [show committed (s.finish w (dropRows w s.log)).log = _ from committed_dropRows]
  | _ =>
    dsimp only
    repeat' split
    all_goals exact List.Sublist.refl _

theorem readAll_run (env : Env) (column : Json → Option Json) (s : Table) (ops : List Op) :
    s.readAll.Sublist (run (step env column) s ops).readAll := by
  induction ops generalizing s with
  | nil => exact List.Sublist.refl _
  | cons op ops ih => exact (committed_step s op).reverse.trans (ih (step env column s op))

/-- Nobody is appending. -/
def Quiet (s : Table) : Prop := ∀ w, s.writers w = .idle

theorem eq_map_committed {log : Log} (h : ∀ x ∈ log, x.2 = none) : log = (committed log).map (·, none) := by
  induction log with
  | nil => rfl
  | cons x log ih =>
    obtain ⟨r, owner⟩ := x
    obtain ⟨hx, hlog⟩ := List.forall_mem_cons.1 h
    obtain rfl : owner = none := hx
    rw [committed_cons_none, List.map_cons, ← ih hlog]

theorem Inv.quiet (h : Inv s) (hquiet : Quiet s) :
    s = ⟨s.nextId, (committed s.log).map (·, none), [], fun _ => .idle⟩ := by
  have hlocks : s.locks = [] := List.eq_nil_iff_forall_not_mem.2 fun l hl => h.locked l hl (hquiet _)
  have hlog : s.log = (committed s.log).map (·, none) := by
    refine eq_map_committed fun x hx => ?_
    cases howner : x.2 with
    | none => rfl
    | some w => exact absurd (h.owned x hx w howner) (by rw [hquiet w]; nofun)
  have hwriters : s.writers = fun _ => .idle := funext hquiet
  rw [← hlog, ← hlocks, ← hwriters]

theorem commitRows_eq_self {log : Log} (h : ∀ x ∈ log, x.2 = none) (w : ℕ) : commitRows w log = log := by
  unfold commitRows
  conv_rhs => rw [← List.map_id log]
  refine List.map_congr_left fun x hx => ?_
  rw [if_neg (by rw [h x hx]; nofun), id]

/-- The end of an append that nothing comes between. -/
theorem run_insert_commit (prevHash : Option Bytes) {evt kept : NewAuditEvent} {now : ℤ}
    (hkept : stored column evt = some kept) (hw : s.writers w = .selected prevHash evt) (hlog : ∀ x ∈ s.log, x.2 = none)
    (hnew : ∀ x ∈ s.log, x.1.rowHash ≠ (newRow env s.nextId now prevHash evt kept).rowHash) :
    run (step env column) s [.insert w now, .commit w] =
      ⟨s.nextId + 1, (newRow env s.nextId now prevHash evt kept, none) :: s.log, s.locks.filter (·.2 ≠ w),
        Function.update s.writers w .idle⟩ := by
  have hfind : s.log.find? (·.1.rowHash = (newRow env s.nextId now prevHash evt kept).rowHash) = none := by simpa using hnew
  have hinsert : step env column s (.insert w now) = { s with
      nextId := s.nextId + 1
      log := (newRow env s.nextId now prevHash evt kept, some w) :: s.log }.set w .inserted := by
    simp only [step, hw, hkept, hfind]
  have hrows : commitRows w ((newRow env s.nextId now prevHash evt kept, some w) :: s.log) =
      (newRow env s.nextId now prevHash evt kept, none) :: s.log := by
    rw [commitRows, List.map_cons, if_pos rfl, ← commitRows, commitRows_eq_self hlog]
  rw [run_cons, run_cons, run_nil, hinsert]
  simp only [step, set_writers, if_true, set_log, hrows]
  simp only [Table.finish, Table.set, Function.update_idem]

/-- The statements of two appends, in an order that they can come in: the second waits for the lock of the first. -/
def race (e e' : NewAuditEvent) (now now' : ℤ) : List Op :=
  [.begins 0 e, .begins 1 e', .lock 0] ++ ([.insert 0 now, .commit 0] ++ ([.lock 1] ++ [.insert 1 now', .commit 1]))

section race
variable {n now now' : ℤ} {rows : List AuditRecord} {e e' f f' : NewAuditEvent} {prevHash : Option Bytes} {locks : List (ℤ × ℕ)}

/-- A table of committed rows, in which the two writers of a race are in the phases. -/
def racing (n : ℤ) (rows : List AuditRecord) (locks : List (ℤ × ℕ)) (first second : Writer) : Table :=
  ⟨n, rows.map (·, none), locks, Function.update (Function.update (fun _ => .idle) 0 first) 1 second⟩

theorem run_first (hkept : stored column e = some f)
    (hfresh : ∀ r ∈ rows, r.rowHash ≠ (newRow env n now prevHash e f).rowHash) (second : Writer) :
    run (step env column) (racing n rows locks (.selected prevHash e) second) [.insert 0 now, .commit 0] =
      racing (n + 1) (newRow env n now prevHash e f :: rows) (locks.filter (·.2 ≠ 0)) .idle second := by
  rw [run_insert_commit prevHash hkept rfl (by simp [racing]) (by simpa [racing] using hfresh)]
  simp only [racing, List.map_cons]
  congr 1
  rw [Function.update_comm (by decide : (0 : ℕ) ≠ 1), Function.update_idem, Function.update_comm (by decide : (1 : ℕ) ≠ 0)]

theorem run_second (hkept : stored column e = some f)
    (hfresh : ∀ r ∈ rows, r.rowHash ≠ (newRow env n now prevHash e f).rowHash) :
    committed (run (step env column) (racing n rows locks .idle (.selected prevHash e)) [.insert 1 now, .commit 1]).log =
      newRow env n now prevHash e f :: rows := by
  rw [run_insert_commit prevHash hkept rfl (by simp [racing]) (by simpa [racing] using hfresh)]
  simp [racing, committed, List.filter_map, Function.comp_def]

theorem committed_race (hkept : stored column e = some f) (hkept' : stored column e' = some f')
    (hprev : rows.head?.map (·.rowHash) = prevHash)
    (hfresh : ∀ r ∈ rows, r.rowHash ≠ (newRow env n now prevHash e f).rowHash)
    (hfresh' : ∀ r ∈ newRow env n now prevHash e f :: rows, r.rowHash ≠ (newRow env (n + 1) now' prevHash e' f').rowHash) :
    committed (run (step env column) ⟨n, rows.map (·, none), [], fun _ => .idle⟩ (race e e' now now')).log =
      newRow env (n + 1) now' prevHash e' f' :: newRow env n now prevHash e f :: rows := by
  rw [race, run_append, run_append, run_append]
  cases rows with
  | nil =>
    obtain rfl : none = prevHash := hprev
    have hselect : run (step env column) ⟨n, [], [], fun _ => .idle⟩ [.begins 0 e, .begins 1 e', .lock 0] =
        racing n [] [] (.selected none e) (.selected none e') := rfl
    have hlock : ∀ {rows : List AuditRecord},
        run (step env column) (racing (n + 1) rows [] .idle (.selected none e')) [.lock 1] =
          racing (n + 1) rows [] .idle (.selected none e') := rfl
    rw [List.map_nil, hselect, run_first hkept hfresh, List.filter_nil, hlock, run_second hkept' hfresh']
  | cons tip rows =>
    obtain rfl : some tip.rowHash = prevHash := hprev
    -- the second writer waits for the lock, and is handed the row that it waited for
    have hselect : run (step env column) ⟨n, (tip :: rows).map (·, none), [], fun _ => .idle⟩
        [.begins 0 e, .begins 1 e', .lock 0] =
        racing n (tip :: rows) [(tip.id, 0)] (.selected (some tip.rowHash) e) (.waiting tip e') := by
      simp only [run_cons, run_nil, step, Table.set, racing, List.map_cons, committed_cons_none, List.head?_cons,
        Function.update_self, ne_eq, one_ne_zero, not_false_eq_true, Function.update_of_ne, zero_ne_one, List.any_nil,
        Bool.false_eq_true, if_false]
      rw [Function.update_comm (by decide : (1 : ℕ) ≠ 0), Function.update_idem]
    have hlock : ∀ {rows : List AuditRecord},
        run (step env column) (racing (n + 1) rows [] .idle (.waiting tip e')) [.lock 1] =
          racing (n + 1) rows [(tip.id, 1)] .idle (.selected (some tip.rowHash) e') := by
      intro rows
      simp [racing, step, Table.set]
    rw [hselect, run_first hkept hfresh, show [(tip.id, 0)].filter (·.2 ≠ 0) = [] from rfl, hlock,
      run_second hkept' hfresh']

end race

/-- **A fork is always in reach, and for good.** From any table that nobody is appending to, two events that it can hold
can be appended so that the verifier refuses the table from then on. -/
theorem fork_forever (env : Env) (column : Json → Option Json) (ops : List Op) (e e' : NewAuditEvent) :
    let s := run (step env column) .start ops
    let prevHash := s.readAll.getLast?.map (·.rowHash)
    let rowHash := fun e : NewAuditEvent => hashRow env prevHash (canonicalPayload env.floatText e)
    Quiet s → (stored column e).isSome → (stored column e').isSome → rowHash e ≠ rowHash e' →
    (∀ r ∈ s.readAll, r.rowHash ≠ rowHash e ∧ r.rowHash ≠ rowHash e') →
    ∃ appends, (run (step env column) s appends).readAll.map (some ·.event) =
        s.readAll.map (some ·.event) ++ [stored column e, stored column e'] ∧
      ∀ later, verifyChain env (run (step env column) s (appends ++ later)).readAll ≠ .ok () := by
  intro s prevHash rowHash hquiet hsome hsome' hne hfresh
  obtain ⟨f, hkept⟩ := Option.isSome_iff_exists.1 hsome
  obtain ⟨f', hkept'⟩ := Option.isSome_iff_exists.1 hsome'
  have hprev : (committed s.log).head?.map (·.rowHash) = prevHash := by
    rw [show prevHash = s.readAll.getLast?.map (·.rowHash) from rfl, Table.readAll, List.getLast?_reverse]
  have hrace : committed (run (step env column) ⟨s.nextId, (committed s.log).map (·, none), [], fun _ => .idle⟩
      (race e e' 0 0)).log = _ :=
    committed_race hkept hkept' hprev (fun r hr => (hfresh r (List.mem_reverse.2 hr)).1) ?_
  · rw [← (inv_run env column ops).quiet hquiet] at hrace
    refine ⟨race e e' 0 0, ?_, fun later hok => ?_⟩
    · rw [Table.readAll, hrace, Table.readAll, hkept, hkept']
      simp [newRow, AuditRecord.event]
    · rw [show run (step env column) s (race e e' 0 0 ++ later) =
          run (step env column) .start (ops ++ (race e e' 0 0 ++ later)) from (run_append _ _ _ _).symm,
        (inv_run env column _).verifyChain_iff, run_append, run_append] at hok
      have hsub := (readAll_run env column (run (step env column) s (race e e' 0 0)) later).map (·.prevHash)
      have hnodup := hok.1.sublist hsub
      rw [Table.readAll, hrace] at hnodup
      simp only [List.reverse_cons, List.append_assoc, List.singleton_append, List.map_append] at hnodup
      exact absurd (List.Nodup.of_append_right hnodup) (by simp [newRow])
  · exact List.forall_mem_cons.2 ⟨hne, fun r hr => (hfresh r (List.mem_reverse.2 hr)).2⟩

theorem fork_forever_keySet : ∃ appends,
    (run (step testEnv some) .start appends).readAll.map (some ·.event) = [some (keySet 0), some (keySet 1)] ∧
      ∀ later, verifyChain testEnv (run (step testEnv some) .start (appends ++ later)).readAll ≠ .ok () :=
  fork_forever testEnv some [] (keySet 0) (keySet 1) (fun _ => rfl) (by decide) (by decide) (by decide +kernel) nofun

end Qtss.Audit.Writers
