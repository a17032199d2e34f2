import Qtss.Audit.Canonical
import Qtss.Lib.HashChain
import Qtss.Lib.Runs
/-
# The audit log (`qtss-audit/src/chain.rs`, `sink.rs`, `types.rs`, `error.rs`)

| here | there |
| --- | --- |
| `AuditRecord`, `AuditError` | types.rs:40, error.rs:4 |
| `hashRow`, `verifyChain`    | chain.rs:51, :60 |
| `append`                    | `MemoryAuditSink::append` (sink.rs:136) |
| `Env`                       | SHA-256 of the `sha2` crate, the printer of floats and the clock |

`verifyChain` accepts the logs that are `HashChain.Linked` (`verifyChain_iff`). What an accepted log with a known last hash
commits to is the text under the hashes: its events, where keys are plain (`verifyChain_commits`), but not which of two
payloads of one text they had (`verifyChain_exchange`), and neither `id` nor `at`.
-/

namespace Qtss.Audit
open HashChain

structure AuditRecord where
  id : ℤ
  at_ : ℤ
  actor : String
  action : String
  subject : String
  payload : Json
  correlationId : Option Uuid
  prevHash : Option Bytes
  rowHash : Bytes

/-- `canonical_payload` has no error to pass on. -/
inductive AuditError where
  | chainBroken (id : ℤ) (expected found : String)
  | hashMismatch (id : ℤ) (stored recomputed : String)
deriving DecidableEq

structure Env where
  sha256 : Bytes → Bytes
  floatText : ℚ → List Char

/-- `hex::encode` -/
def hexEncode (b : Bytes) : String :=
  String.ofList (b.flatMap fun x => [hexDigit (x.toNat / 16), hexDigit (x.toNat % 16)])

def AuditRecord.event (rec : AuditRecord) : NewAuditEvent :=
  ⟨rec.actor, rec.action, rec.subject, rec.payload, rec.correlationId⟩

def hashRow (env : Env) (prevHash : Option Bytes) (canonical : Bytes) : Bytes :=
  env.sha256 (prevHash.getD [] ++ canonical)

/-- The loop of `verify_chain`, from the hash that the next row has to carry. -/
def verifyFrom (env : Env) : Option Bytes → List AuditRecord → Except AuditError Unit
  | _, [] => .ok ()
  | expectedPrev, rec :: records =>
    let actualPrev := rec.prevHash
    let recomputed := hashRow env actualPrev (canonicalPayload env.floatText rec.event)
    if actualPrev ≠ expectedPrev then
      .error (.chainBroken rec.id ((expectedPrev.map hexEncode).getD "") ((actualPrev.map hexEncode).getD ""))
    else if recomputed ≠ rec.rowHash then
      .error (.hashMismatch rec.id (hexEncode rec.rowHash) (hexEncode recomputed))
    else verifyFrom env (some rec.rowHash) records

def verifyChain (env : Env) (records : List AuditRecord) : Except AuditError Unit := verifyFrom env none records

def append (env : Env) (rows : List AuditRecord) (now : ℤ) (evt : NewAuditEvent) : AuditRecord :=
  let prevHash := rows.getLast?.map (·.rowHash)
  { id := rows.length + 1
    at_ := now
    actor := evt.actor
    action := evt.action
    subject := evt.subject
    payload := evt.payload
    correlationId := evt.correlationId
    prevHash := prevHash
    rowHash := hashRow env prevHash (canonicalPayload env.floatText evt) }

/-- What the sink keeps. -/
def step (env : Env) (rows : List AuditRecord) (op : ℤ × NewAuditEvent) : List AuditRecord :=
  rows ++ [append env rows op.1 op.2]

def scheme (env : Env) : Scheme AuditRecord Bytes Bytes where
  prev := AuditRecord.prevHash
  digest := AuditRecord.rowHash
  content rec := canonicalPayload env.floatText rec.event
  hash := hashRow env

variable {env : Env} {start : Option Bytes} {rows a b : List AuditRecord} {rec r r' : AuditRecord}

/-! ## What is accepted -/

theorem sealed_iff :
    Sealed (scheme env) rec ↔ hashRow env rec.prevHash (canonicalPayload env.floatText rec.event) = rec.rowHash := eq_comm

theorem verifyFrom_cons : verifyFrom env start (rec :: rows) = .ok () ↔
    rec.prevHash = start ∧ Sealed (scheme env) rec ∧ verifyFrom env (some rec.rowHash) rows = .ok () := by
  rw [sealed_iff, verifyFrom]
  split
  · next hprev => simp [hprev]
  · next hprev =>
    rw [not_ne_iff] at hprev
    split
    · next hhash => simp [hhash]
    · next hhash => exact ⟨fun h => ⟨hprev, not_ne_iff.1 hhash, h⟩, fun h => h.2.2⟩

theorem verifyFrom_iff : verifyFrom env start rows = .ok () ↔ Linked (scheme env) start rows := by
  induction rows generalizing start with
  | nil => simp [verifyFrom, Linked]
  | cons rec rows ih =>
    rw [verifyFrom_cons, ih]
    rfl

theorem verifyChain_iff : verifyChain env rows = .ok () ↔ Linked (scheme env) none rows := verifyFrom_iff

theorem linked_step (h : Linked (scheme env) none rows) (op : ℤ × NewAuditEvent) :
    Linked (scheme env) none (step env rows op) := by
  refine linked_concat.2 ⟨h, ?_, rfl⟩
  simp [tip, scheme, append]

/-- **What the sink wrote is accepted**, whatever it was asked to append. -/
theorem verifyChain_run (env : Env) (ops : List (ℤ × NewAuditEvent)) :
    verifyChain env (Runs.run (step env) [] ops) = .ok () := by
  refine verifyChain_iff.2 (Runs.run_invariant (K := fun _ => True) ?_ trivial fun _ _ => trivial)
  exact fun rows op h _ => linked_step h op

theorem map_event_run (env : Env) (rows : List AuditRecord) (ops : List (ℤ × NewAuditEvent)) :
    (Runs.run (step env) rows ops).map (·.event) = rows.map (·.event) ++ ops.map (·.2) := by
  induction ops generalizing rows with
  | nil => simp
  | cons op ops ih => rw [Runs.run_cons, ih, step, List.map_append, List.append_assoc]; rfl

/-! ## What is committed to -/

/-- What the hash of a row is the hash of. -/
def AuditRecord.hashed (rec : AuditRecord) (env : Env) : Bytes :=
  rec.prevHash.getD [] ++ canonicalPayload env.floatText rec.event

theorem rowHash_eq (h : Sealed (scheme env) rec) : rec.rowHash = env.sha256 (rec.hashed env) := h

theorem length_prevHash (hsha : ∀ x, (env.sha256 x).length = 32) (h : Linked (scheme env) none rows) (hr : r ∈ rows)
    {d : Bytes} (hd : r.prevHash = some d) : d.length = 32 := by
  rcases List.eq_nil_or_concat rows with rfl | ⟨init, last, rfl⟩
  · simp at hr
  rw [List.concat_eq_append] at h hr
  have hmem : some d ∈ (init ++ [last]).map (scheme env).prev := List.mem_map.2 ⟨r, hr, hd⟩
  rw [h.map_prev, List.mem_cons] at hmem
  rcases hmem with hnone | hmem
  · cases hnone
  · obtain ⟨r₀, hr₀, hdigest⟩ := List.mem_map.1 hmem
    obtain rfl := Option.some.inj hdigest
    rw [show (scheme env).digest r₀ = _ from rowHash_eq (h.sealed r₀ (List.mem_append_left _ hr₀))]
    exact hsha _

/-- The first row of a log, which carries no hash, and a row whose hash is in the text of that row. -/
def Ambiguous (env : Env) (r r' : AuditRecord) : Prop :=
  r.prevHash = none ∧ ∃ d ∈ r'.prevHash,
    canonicalPayload env.floatText r.event = d ++ canonicalPayload env.floatText r'.event

/-- One text has one pair of a hash and a payload, if both have hashes or none has. -/
theorem same_or_ambiguous (hr : ∀ d ∈ r.prevHash, d.length = 32) (hr' : ∀ d ∈ r'.prevHash, d.length = 32)
    (h : r.hashed env = r'.hashed env) : Same (scheme env) r r' ∨ Ambiguous env r r' ∨ Ambiguous env r' r := by
  unfold AuditRecord.hashed at h
  cases hd : r.prevHash with
  | none =>
    cases hd' : r'.prevHash with
    | none =>
      rw [hd, hd', List.append_cancel_left_eq] at h
      exact .inl ⟨hd.trans hd'.symm, h⟩
    | some d' =>
      rw [hd, hd', Option.getD_none, List.nil_append, Option.getD_some] at h
      exact .inr (.inl ⟨hd, d', hd', h⟩)
  | some d =>
    cases hd' : r'.prevHash with
    | none =>
      rw [hd, hd', Option.getD_none, List.nil_append, Option.getD_some] at h
      exact .inr (.inr ⟨hd', d, hd, h.symm⟩)
    | some d' =>
      rw [hd, hd', Option.getD_some, Option.getD_some] at h
      obtain ⟨rfl, hcontent⟩ := List.append_inj h ((hr d hd).trans (hr' d' hd').symm)
      exact .inl ⟨hd.trans hd'.symm, hcontent⟩

theorem map_event_eq (hf : PrintsFloats env.floatText) (hsame : List.Forall₂ (Same (scheme env)) a b)
    (ha : ∀ r ∈ a, r.event.Plain) (hb : ∀ r ∈ b, r.event.Plain) : a.map (·.event) = b.map (·.event) := by
  induction hsame with
  | nil => rfl
  | cons h _ ih =>
    obtain ⟨hr, ha⟩ := List.forall_mem_cons.1 ha
    obtain ⟨hr', hb⟩ := List.forall_mem_cons.1 hb
    rw [List.map_cons, List.map_cons, canonicalPayload_inj hf hr hr' h.2, ih ha hb]

/-- Accepted logs with one last hash are logs of the same events. Otherwise two of their rows collide under SHA-256,
or the text of a first row starts with the hash of a row. -/
theorem map_event_eq_or_clash (hsha : ∀ x, (env.sha256 x).length = 32) (hf : PrintsFloats env.floatText)
    (ha : verifyChain env a = .ok ()) (hb : verifyChain env b = .ok ())
    (hlast : a.getLast?.map (·.rowHash) = b.getLast?.map (·.rowHash)) (hplain : ∀ r ∈ a ++ b, r.event.Plain) :
    a.map (·.event) = b.map (·.event) ∨ ∃ r ∈ a, ∃ r' ∈ b, r.rowHash = r'.rowHash ∧
      (r.hashed env ≠ r'.hashed env ∧ env.sha256 (r.hashed env) = env.sha256 (r'.hashed env) ∨
        Ambiguous env r r' ∨ Ambiguous env r' r) := by
  rw [verifyChain_iff] at ha hb
  have htip : tip (scheme env) none a = tip (scheme env) none b := by simpa [tip, scheme] using hlast
  rcases ha.agree_or_clash hb htip with hagree | ⟨r, hr, r', hr', hdigest, hdiffer⟩
  · exact .inl (map_event_eq hf hagree (fun r hr => hplain r (List.mem_append_left _ hr))
      fun r hr => hplain r (List.mem_append_right _ hr))
  · refine .inr ⟨r, hr, r', hr', hdigest, ?_⟩
    by_cases hhashed : r.hashed env = r'.hashed env
    · right
      have hlength := fun d hd => length_prevHash hsha ha hr (d := d) hd
      have hlength' := fun d hd => length_prevHash hsha hb hr' (d := d) hd
      exact (same_or_ambiguous hlength hlength' hhashed).resolve_left hdiffer
    · left
      refine ⟨hhashed, ?_⟩
      rw [← rowHash_eq (ha.sealed r hr), ← rowHash_eq (hb.sealed r' hr')]
      exact hdigest

/-- **The log of the sink** is accepted, and no other one with its last hash is, unless it has the same events, or shows a
collision of SHA-256 with a row of the sink, or a first row whose text starts with a hash. -/
theorem verifyChain_commits (hsha : ∀ x, (env.sha256 x).length = 32) (hf : PrintsFloats env.floatText)
    (ops : List (ℤ × NewAuditEvent)) :
    let log := Runs.run (step env) [] ops
    verifyChain env log = .ok () ∧ ∀ forged, verifyChain env forged = .ok () →
      forged.getLast?.map (·.rowHash) = log.getLast?.map (·.rowHash) → (∀ r ∈ forged ++ log, r.event.Plain) →
      forged.map (·.event) = ops.map (·.2) ∨ ∃ r ∈ forged, ∃ r' ∈ log, r.rowHash = r'.rowHash ∧
        (r.hashed env ≠ r'.hashed env ∧ env.sha256 (r.hashed env) = env.sha256 (r'.hashed env) ∨
          Ambiguous env r r' ∨ Ambiguous env r' r) := by
  intro log
  refine ⟨verifyChain_run env ops, fun forged hforged hlast hplain => ?_⟩
  rw [← List.nil_append (ops.map (·.2)), ← List.map_nil, ← map_event_run env [] ops]
  exact map_event_eq_or_clash hsha hf hforged (verifyChain_run env ops) hlast hplain

/-- The events that the tests delete a row of (tests.rs:87), -/
def keySet (i : ℕ) : NewAuditEvent := ⟨"alice", "config.set", "k" ++ toString i, .obj [("v", .int i)], none⟩

def zeroDigest : Bytes :=
  [19, 141, 189, 21, 105, 25, 206, 187, 169, 163, 66, 111, 206, 130, 101, 57, 154, 201,
    119, 56, 195, 193, 25, 205, 53, 76, 22, 116, 143, 12, 112, 123]

/-- and SHA-256 at the texts of the first two of them: each on no row before, and the second on the first. -/
def digests : List (Bytes × Bytes) := [
  (Utf8.bytes "alice\x00config.set\x00k0\x00\x00\x7bv:0\x7d".toList, zeroDigest),
  (Utf8.bytes "alice\x00config.set\x00k1\x00\x00\x7bv:1\x7d".toList,
    [59, 112, 133, 127, 192, 41, 102, 229, 134, 231, 167, 65, 11, 173, 44, 14, 16, 215, 228, 79, 145, 51, 188, 136,
       87, 114, 224, 143, 62, 253, 139, 241]),
  (zeroDigest ++ Utf8.bytes "alice\x00config.set\x00k1\x00\x00\x7bv:1\x7d".toList,
    [218, 181, 16, 33, 7, 200, 177, 131, 209, 121, 139, 125, 102, 177, 246, 183, 240, 246,
       171, 39, 80, 19, 65, 128, 86, 163, 99, 34, 103, 95, 250, 2])]

def testEnv : Env where
  sha256 x := (digests.lookup x).getD (List.replicate 32 0)
  floatText q := intText q.num ++ '.' :: Nat.toDigits 10 q.den

theorem length_sha256_testEnv (x : Bytes) : (testEnv.sha256 x).length = 32 := by
  have hlength : ∀ p ∈ digests, p.2.length = 32 := by decide
  show ((digests.lookup x).getD (List.replicate 32 0)).length = 32
  cases hlookup : digests.lookup x with
  | none => rfl
  | some d =>
    obtain ⟨pre, post, hsplit, -⟩ := List.lookup_eq_some_iff.1 hlookup
    exact hlength (x, d) (by simp [hsplit])

theorem plain_keySet {i : ℕ} (h : i ∈ [0, 1]) : (keySet i).Plain where
  actor := by simp only [keySet]; decide
  action := by simp only [keySet]; decide
  subject := by
    have hsubject : ∀ i ∈ [0, 1], '\x00' ∉ (keySet i).subject.toList := by decide
    exact hsubject i h
  payload := by
    have hkey : PlainKey "v" := by unfold PlainKey; decide
    exact .obj (List.pairwise_singleton _ _) (List.forall_mem_singleton.2 hkey) (List.forall_mem_singleton.2 (.int i))

/-- The first two events, appended at two times. -/
def keySets (now : ℤ) : List AuditRecord := Runs.run (step testEnv) [] [(now, keySet 0), (now + 1, keySet 1)]

theorem map_event_keySets (now : ℤ) : (keySets now).map (·.event) = [keySet 0, keySet 1] := map_event_run testEnv [] _

/-- A log of another day. -/
theorem verifyChain_commits_keySet : (keySets 86400).map (·.event) = [keySet 0, keySet 1] ∨
    ∃ r ∈ keySets 86400, ∃ r' ∈ keySets 0, r.rowHash = r'.rowHash ∧
      (r.hashed testEnv ≠ r'.hashed testEnv ∧ testEnv.sha256 (r.hashed testEnv) = testEnv.sha256 (r'.hashed testEnv) ∨
        Ambiguous testEnv r r' ∨ Ambiguous testEnv r' r) := by
  refine (verifyChain_commits length_sha256_testEnv printsFloats_fraction [(0, keySet 0), (1, keySet 1)]).2 (keySets 86400)
    (verifyChain_run _ _) rfl fun r hr => ?_
  have hevent : ∀ now, r ∈ keySets now → r.event.Plain := by
    intro now hr
    have hmem : r.event ∈ [keySet 0, keySet 1] := map_event_keySets now ▸ List.mem_map_of_mem hr
    simp only [List.mem_cons, List.not_mem_nil, or_false] at hmem
    rcases hmem with heq | heq <;> rw [heq] <;> exact plain_keySet (by simp)
  exact (List.mem_append.1 hr).elim (hevent 86400) (hevent 0)

/-- **A payload can be exchanged**, with the time and the number of its row: the last two entries of a map for one. -/
theorem verifyChain_exchange {fields : List (String × Json)} {k₁ k₂ : String} {v₁ v₂ : Json}
    (hpayload : rec.payload = .obj (fields ++ [(k₁, v₁), (k₂, v₂)]))
    (hfields : InOrder (fields ++ [(k₁, v₁), (k₂, v₂)])) (id at_ : ℤ) (h : verifyChain env (a ++ rec :: b) = .ok ()) :
    let folded := fields ++ [(foldedKey env.floatText k₁ v₁ k₂, v₂)]
    InOrder folded ∧
      verifyChain env (a ++ { rec with id := id, at_ := at_, payload := .obj folded } :: b) = .ok () := by
  refine ⟨hfields.fold, verifyChain_iff.2 ((verifyChain_iff.1 h).congr rfl rfl ?_)⟩
  simp only [scheme, AuditRecord.event, canonicalPayload, hpayload, canonicalizeValue_fold hfields]

/-- Like the first event of the tests (tests.rs:18). Its two limits may as well be one, under the key `new:7,old`. -/
def maxDd : NewAuditEvent := ⟨"alice", "config.set", "risk.max_dd", .obj [("new", .int 7), ("old", .int 5)], none⟩

theorem verifyChain_exchange_maxDd : InOrder [("new:7,old", .int 5)] ∧
    verifyChain testEnv [{ append testEnv [] 0 maxDd with payload := .obj [("new:7,old", .int 5)] }] = .ok () :=
  @verifyChain_exchange testEnv [] [] (append testEnv [] 0 maxDd) [] "new" "old" (.int 7) (.int 5) rfl
    (by unfold InOrder; decide) 1 0 (verifyChain_run testEnv [(0, maxDd)])

end Qtss.Audit
