import Qtss.Execution.DryLedger
import Qtss.Lib.Keyed
/-
# The config registry (`qtss-config/src/store.rs`, `scope.rs`, `types.rs`, migration 0014)

| here | there |
| --- | --- |
| `ScopeType`, `Scope`, `ResolveCtx`, `priorityChain` | scope.rs:18, :48, :78, :109 |
| `ConfigDb`        | the four tables as far as the store reads them: the unique keys of `config_scope` and `config_value` are the keys of the maps; `users` is what the foreign keys of the actor refer to |
| `SetOptions`, `ConfigError` | types.rs:72, error.rs |
| `probe`, `resolve`, `getJson` | store.rs:98, and the loop of `get_json` (:126) |
| `planWrite`, `upsertRow`, `setJson` | store.rs:172-186, the upsert (:188), `set_json` (:147) run by itself |

A value is of any type `V` (`serde_json::Value` there). The reader wants `enabled = true`; the writer inserts
with `enabled = true`, but its `ON CONFLICT` part sets every column except that one (`shown_iff`).
-/

namespace Qtss.Config
open Keyed

inductive ScopeType where
  | global | assetClass | venue | strategy | instrument | user
deriving DecidableEq, Repr

def ScopeType.asStr : ScopeType → String
  | .global => "global"
  | .assetClass => "asset_class"
  | .venue => "venue"
  | .strategy => "strategy"
  | .instrument => "instrument"
  | .user => "user"

/-- `key` is empty for global. -/
structure Scope where
  scopeType : ScopeType
  key : String
deriving DecidableEq, Repr

def Scope.global : Scope := ⟨.global, ""⟩

structure ResolveCtx where
  instrument : Option String
  strategy : Option String
  venue : Option String
  assetClass : Option String
  user : Option String

def ResolveCtx.default : ResolveCtx := ⟨none, none, none, none, none⟩

/-- "Highest precedence first; resolution stops at first match." -/
def ResolveCtx.priorityChain (ctx : ResolveCtx) : List Scope :=
  let candidates : List (ScopeType × Option String) :=
    [(.instrument, ctx.instrument), (.strategy, ctx.strategy), (.venue, ctx.venue),
      (.assetClass, ctx.assetClass), (.user, ctx.user)]
  (candidates.filterMap fun p => p.2.map fun v => ⟨p.1, v⟩) ++ [.global]

inductive ConfigError where
  | notFound (key : String)
  | scopeNotFound (scopeType scopeKey : String)
  | versionConflict (key : String) (expected found : ℤ)
  | missingReason
  | database
deriving DecidableEq, Repr

/-- "If `Some`, the update is rejected unless the row's current `version` matches." -/
structure SetOptions where
  expectedVersion : Option ℤ
  validFrom : Option DateTime
  validUntil : Option DateTime
  correlation : Option Uuid
deriving DecidableEq

def SetOptions.default : SetOptions := ⟨none, none, none, none⟩

structure ConfigValueRow (V : Type) where
  value : V
  version : ℤ
  enabled : Bool
  validFrom : Option DateTime
  validUntil : Option DateTime
  updatedBy : Option Uuid
deriving DecidableEq

structure AuditRow (V : Type) where
  key : String
  scopeId : ℕ
  action : String
  oldValue : Option V
  newValue : V
  changedBy : Option Uuid
  reason : String
  correlation : Option Uuid
deriving DecidableEq

structure ConfigDb (V : Type) where
  scopes : HashMap Scope ℕ
  values : HashMap (String × ℕ) (ConfigValueRow V)
  schema : HashMap String V
  users : List Uuid
  audit : List (AuditRow V)

variable {V : Type}

/-! ## Reading -/

/-- `enabled = true` and within the validity window. -/
def ConfigValueRow.Visible (row : ConfigValueRow V) (now : DateTime) : Prop :=
  row.enabled = true ∧ (∀ t ∈ row.validFrom, t ≤ now) ∧ ∀ t ∈ row.validUntil, now < t

instance (row : ConfigValueRow V) (now : DateTime) : Decidable (row.Visible now) := by
  unfold ConfigValueRow.Visible; infer_instance

/-- store.rs:98. -/
def probe (db : ConfigDb V) (key : String) (scopeId : ℕ) (now : DateTime) : Option V :=
  ((db.values.lookup (key, scopeId)).filter fun row => decide (row.Visible now)).map (·.value)

/-- "Walk the priority chain. First hit wins." A scope that is not registered is a miss. -/
def resolve (db : ConfigDb V) (key : String) (now : DateTime) : List Scope → Except ConfigError V
  | [] =>
    match db.schema.lookup key with
    | some v => .ok v
    | none => .error (.notFound key)
  | scope :: rest =>
    match db.scopes.lookup scope with
    | none => resolve db key now rest
    | some scopeId =>
      match probe db key scopeId now with
      | some value => .ok value
      | none => resolve db key now rest

def getJson (db : ConfigDb V) (key : String) (ctx : ResolveCtx) (now : DateTime) : Except ConfigError V :=
  resolve db key now ctx.priorityChain

/-! ## Writing -/

/-- `v + 1` on an `i32`. -/
def nextVersion (v : ℤ) : ℤ := if v = 2 ^ 31 - 1 then -2 ^ 31 else v + 1

structure WritePlan (V : Type) where
  action : String
  oldValue : Option V
  newVersion : ℤ
deriving DecidableEq

/-- "Optimistic lock check + load current value for audit diff" (store.rs:172-186). -/
def planWrite (key : String) (expectedVersion : Option ℤ) (current : Option (ℤ × V)) :
    Except ConfigError (WritePlan V) :=
  match expectedVersion, current with
  | some expected, some (found, old) =>
    if expected ≠ found then .error (.versionConflict key expected found)
    else .ok ⟨"update", some old, nextVersion found⟩
  | none, some (found, old) => .ok ⟨"update", some old, nextVersion found⟩
  | _, none => .ok ⟨"create", none, 1⟩

/-- The row after the upsert: `enabled` is of the inserted row only. -/
def upsertRow (old : Option (ConfigValueRow V)) (value : V) (version : ℤ) (opts : SetOptions)
    (actor : Option Uuid) : ConfigValueRow V :=
  match old with
  | none => ⟨value, version, true, opts.validFrom, opts.validUntil, actor⟩
  | some row =>
    { row with
      value := value
      version := version
      validFrom := opts.validFrom
      validUntil := opts.validUntil
      updatedBy := actor }

/-- store.rs:147 with nothing else going on: the version and the tables. A new row needs its key in the schema,
and an actor must be a user. -/
def setJson (db : ConfigDb V) (key : String) (scope : Scope) (value : V) (actor : Option Uuid)
    (reason : String) (opts : SetOptions) : Except ConfigError (ℤ × ConfigDb V) :=
  if Execution.Dry.trim reason = "" then .error .missingReason
  else
    match db.scopes.lookup scope with
    | none => .error (.scopeNotFound scope.scopeType.asStr scope.key)
    | some scopeId =>
      let row := db.values.lookup (key, scopeId)
      match planWrite key opts.expectedVersion (row.map fun row => (row.version, row.value)) with
      | .error e => .error e
      | .ok plan =>
        if (row.isNone ∧ (db.schema.lookup key).isNone) ∨ actor.any (· ∉ db.users) then .error .database
        else
          .ok (plan.newVersion,
            { db with
              values := db.values.insert (key, scopeId) (upsertRow row value plan.newVersion opts actor)
              audit := db.audit ++
                [⟨key, scopeId, plan.action, plan.oldValue, value, actor, reason, opts.correlation⟩] })

/-! ## Reading what was written -/

variable {db db' : ConfigDb V} {key : String} {scope : Scope} {scopeId : ℕ} {value : V} {actor : Option Uuid}
  {reason : String} {opts : SetOptions} {version : ℤ} {now : DateTime} {row : ConfigValueRow V}

/-- What a successful call leaves: one row is other than it was. -/
theorem setJson_eq_ok (h : setJson db key scope value actor reason opts = .ok (version, db')) :
    ∃ scopeId, db.scopes.lookup scope = some scopeId ∧ db'.scopes = db.scopes ∧ db'.schema = db.schema
      ∧ db'.values = db.values.insert (key, scopeId)
        (upsertRow (db.values.lookup (key, scopeId)) value version opts actor) := by
  unfold setJson at h
  split at h
  · cases h
  · split at h
    · cases h
    · rename_i scopeId hscope
      simp only at h
      split at h
      · cases h
      · split at h
        · cases h
        · obtain ⟨rfl, rfl⟩ := Prod.mk.inj (Except.ok.inj h)
          exact ⟨scopeId, hscope, rfl, rfl, rfl⟩

/-- The scope has no currently valid value for the key. -/
def NoValue (db : ConfigDb V) (key : String) (now : DateTime) (scope : Scope) : Prop :=
  ∀ scopeId ∈ db.scopes.lookup scope, probe db key scopeId now = none

theorem resolve_append {pre : List Scope} (h : ∀ s ∈ pre, NoValue db key now s) (rest : List Scope) :
    resolve db key now (pre ++ rest) = resolve db key now rest := by
  induction pre with
  | nil => rfl
  | cons s pre ih =>
    obtain ⟨hs, hpre⟩ := List.forall_mem_cons.1 h
    rw [List.cons_append, resolve]
    cases hscope : db.scopes.lookup s with
    | none => exact ih hpre
    | some scopeId =>
      simp only [hs scopeId hscope]
      exact ih hpre

/-- Resolution sees the tables through the scopes, the defaults and the probes. -/
theorem resolve_congr (hscopes : db'.scopes = db.scopes) (hschema : db'.schema = db.schema)
    (hprobe : ∀ scopeId, probe db' key scopeId now = probe db key scopeId now) (chain : List Scope) :
    resolve db' key now chain = resolve db key now chain := by
  induction chain with
  | nil => rw [resolve, resolve, hschema]
  | cons s chain ih =>
    rw [resolve, resolve, hscopes]
    cases db.scopes.lookup s with
    | none => exact ih
    | some scopeId => simp only [hprobe, ih]

/-- A row written without a window is visible if it was enabled or new. -/
theorem probe_written (hvalues : db'.values = db.values.insert (key, scopeId)
      (upsertRow (db.values.lookup (key, scopeId)) value version opts actor))
    (hfrom : opts.validFrom = none) (huntil : opts.validUntil = none)
    (henabled : ∀ row ∈ db.values.lookup (key, scopeId), row.enabled = true) :
    probe db' key scopeId now = some value := by
  rw [probe, hvalues, lookup_insert_eq, if_pos rfl]
  cases hrow : db.values.lookup (key, scopeId) with
  | none => simp [upsertRow, ConfigValueRow.Visible, hfrom, huntil]
  | some row => simp [upsertRow, ConfigValueRow.Visible, hfrom, huntil, henabled row hrow]

theorem probe_of_disabled (hrow : db.values.lookup (key, scopeId) = some row) (hdisabled : row.enabled = false) :
    probe db key scopeId now = none := by
  rw [probe, hrow]
  simp [ConfigValueRow.Visible, hdisabled]

/-- A disabled row stays out of sight. -/
theorem probe_disabled (hvalues : db'.values = db.values.insert (key, scopeId)
      (upsertRow (db.values.lookup (key, scopeId)) value version opts actor))
    (hrow : db.values.lookup (key, scopeId) = some row) (hdisabled : row.enabled = false) (id : ℕ) :
    probe db' key id now = probe db key id now := by
  by_cases hid : id = scopeId
  · have hwritten : db'.values.lookup (key, scopeId) = some (upsertRow (some row) value version opts actor) := by
      rw [hvalues, lookup_insert_eq, if_pos rfl, hrow]
    rw [hid, probe_of_disabled hwritten hdisabled, probe_of_disabled hrow hdisabled]
  · rw [probe, probe, hvalues, lookup_insert_eq, if_neg fun heq => hid (Prod.mk.inj heq).2]

/-- In every context where the scope is asked and no earlier one has a value, the value is read. -/
def Shown (db : ConfigDb V) (key : String) (scope : Scope) (value : V) : Prop :=
  ∀ (ctx : ResolveCtx) (now : DateTime) (pre post : List Scope), ctx.priorityChain = pre ++ scope :: post →
    (∀ s ∈ pre, NoValue db key now s) → getJson db key ctx now = .ok value

/-- In every such context the scopes after this one resolve to the value anyway. -/
def ShownBelow (db : ConfigDb V) (key : String) (scope : Scope) (value : V) : Prop :=
  ∀ (ctx : ResolveCtx) (now : DateTime) (pre post : List Scope), ctx.priorityChain = pre ++ scope :: post →
    (∀ s ∈ pre, NoValue db key now s) → resolve db key now post = .ok value

/-- Venue `binance` has a disabled row 7 for `risk.cap`, whose default is 5. -/
def disabledDb : ConfigDb ℕ where
  scopes := (∅ : HashMap Scope ℕ).insert ⟨.venue, "binance"⟩ 2
  values := (∅ : HashMap (String × ℕ) (ConfigValueRow ℕ)).insert ("risk.cap", 2) ⟨7, 3, false, none, none, none⟩
  schema := (∅ : HashMap String ℕ).insert "risk.cap" 5
  users := []
  audit := []

/-- The same with the row enabled. -/
def enabledDb : ConfigDb ℕ :=
  { disabledDb with
    values := (∅ : HashMap (String × ℕ) (ConfigValueRow ℕ)).insert ("risk.cap", 2) ⟨7, 3, true, none, none, none⟩ }

def binance : ResolveCtx := { ResolveCtx.default with venue := some "binance" }

end Qtss.Config
