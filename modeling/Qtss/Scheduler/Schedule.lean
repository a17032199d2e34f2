import Mathlib.Data.List.Basic
import Mathlib.Data.Int.Order.Basic
import Mathlib.Algebra.Group.Int.Defs
/-
# Schedule expressions (`qtss-scheduler/src/schedule.rs`)

| here | there |
| --- | --- |
| `Instant`, `Duration` | `chrono::DateTime<Utc>` and `chrono::Duration`, in microseconds (what a `TIMESTAMPTZ` keeps) |
| `Failure`       | the `Err` that `?` hands on, or a panic |
| `Schedule.parse`, `parseInterval` | schedule.rs:27, :49 |
| `nextAfter`     | schedule.rs:39 |
| `parseI64`      | `str::parse::<i64>` |
| `trim`          | `str::trim`, over the characters with the Unicode property `White_Space` |
| `ofSeconds`     | `Duration::seconds` and, with their factor, `minutes`, `hours`, `days`; they panic past `i64::MAX` milliseconds |
| `addDuration`   | `DateTime + Duration`, which panics past the year 262142 |

`split_at(expr.len() - 1)` counts bytes, so an expression that ends in a character of more than one
byte panics too. `parse` answers exactly on the expressions that `Fits` describes.
-/

namespace Qtss.Scheduler

abbrev Instant := ℤ
abbrev Duration := ℤ

inductive SchedulerError where
  | invalidSchedule (text : String)
deriving DecidableEq, Repr

inductive Failure where
  | error (e : SchedulerError)
  | panic
deriving DecidableEq, Repr

inductive Schedule where
  | interval (d : Duration)
  /-- "Raw cron expression. Parsing happens at fire time." -/
  | cron (expr : String)
deriving DecidableEq, Repr

def second : Duration := 1000000

/-- `i64::MAX / 1000`, the most seconds a `Duration` holds. -/
def maxSeconds : ℤ := 9223372036854775

/-- `DateTime::<Utc>::MAX_UTC`. -/
def maxInstant : Instant := 8210266876799999999

def isWhitespace (c : Char) : Bool :=
  let n := c.toNat
  decide (9 ≤ n ∧ n ≤ 13) || n == 0x20 || n == 0x85 || n == 0xA0 || n == 0x1680
    || decide (0x2000 ≤ n ∧ n ≤ 0x200A) || n == 0x2028 || n == 0x2029 || n == 0x202F || n == 0x205F
    || n == 0x3000

def trim (cs : List Char) : List Char :=
  ((cs.dropWhile isWhitespace).reverse.dropWhile isWhitespace).reverse

def digit (c : Char) : Option ℕ :=
  if '0'.toNat ≤ c.toNat ∧ c.toNat ≤ '9'.toNat then some (c.toNat - '0'.toNat) else none

def parseDigits (cs : List Char) : Option ℕ :=
  if cs = [] then none
  else (cs.mapM digit).map fun ds => ds.foldl (fun n d => n * 10 + d) 0

/-- An optional sign, digits, and a value that fits. -/
def parseI64 (cs : List Char) : Option ℤ :=
  let value : Option ℤ := match cs with
    | '+' :: ds => (parseDigits ds).map Int.ofNat
    | '-' :: ds => (parseDigits ds).map fun n => -(n : ℤ)
    | ds => (parseDigits ds).map Int.ofNat
  value.filter fun n => decide (-2 ^ 63 ≤ n ∧ n < 2 ^ 63)

def ofSeconds (n : ℤ) : Except Failure Duration :=
  if n < -maxSeconds ∨ maxSeconds < n then .error .panic else .ok (n * second)

def invalid {α : Type} (text : String) : Except Failure α := .error (.error (.invalidSchedule text))

/-- schedule.rs:58-68. -/
def unitDuration (n : ℤ) : Char → Except Failure Duration
  | 's' => ofSeconds n
  | 'm' => ofSeconds (n * 60)
  | 'h' => ofSeconds (n * 3600)
  | 'd' => ofSeconds (n * 86400)
  | other => invalid ("unknown unit '" ++ String.singleton other ++ "' (use s|m|h|d)")

/-- schedule.rs:49. -/
def parseInterval (expr : String) : Except Failure Duration :=
  let cs := trim expr.toList
  match cs.getLast? with
  | none => invalid "empty interval"
  | some unit =>
    if unit.utf8Size ≠ 1 then .error .panic
    else
      match parseI64 cs.dropLast with
      | none => invalid ("bad number in '" ++ String.ofList cs ++ "'")
      | some n =>
        match unitDuration n unit with
        | .error e => .error e
        | .ok dur => if dur ≤ 0 then invalid "interval must be positive" else .ok dur

/-- schedule.rs:27. -/
def Schedule.parse (kind expr : String) : Except Failure Schedule :=
  if kind = "interval" then (parseInterval expr).map .interval
  else if kind = "cron" then .ok (.cron expr)
  else invalid ("unknown kind '" ++ kind ++ "'")

def addDuration (now : Instant) (d : Duration) : Except Failure Instant :=
  if maxInstant < now + d then .error .panic else .ok (now + d)

/-- The time between two runs: a cron expression counts as 60 seconds. -/
def Schedule.period : Schedule → Duration
  | .interval d => d
  | .cron _ => 60 * second

/-- schedule.rs:39. -/
def nextAfter (schedule : Schedule) (now : Instant) : Except Failure Instant :=
  match schedule with
  | .interval d => addDuration now d
  | .cron _ => addDuration now (60 * second)

variable {kind expr : String} {schedule : Schedule} {now next : Instant} {d : Duration}

theorem parseInterval_pos (h : parseInterval expr = .ok d) : 0 < d := by
  unfold parseInterval at h
  simp only at h
  split at h
  · cases h
  · split at h
    · cases h
    · split at h
      · cases h
      · split at h
        · cases h
        · split at h
          · cases h
          · rename_i hpos
            cases h
            exact not_le.1 hpos

/-- A schedule that parses has a positive period. -/
theorem period_pos (h : Schedule.parse kind expr = .ok schedule) : 0 < schedule.period := by
  unfold Schedule.parse at h
  split at h
  · cases hd : parseInterval expr with
    | error e => simp [hd, Except.map] at h
    | ok d =>
      simp only [hd, Except.map, Except.ok.injEq] at h
      rw [← h]
      exact parseInterval_pos hd
  · split at h
    · cases h
      rw [Schedule.period]
      decide
    · cases h

theorem addDuration_ok (h : addDuration now d = .ok next) : next = now + d := by
  unfold addDuration at h
  split at h
  · cases h
  · cases h
    rfl

theorem nextAfter_ok (h : nextAfter schedule now = .ok next) : next = now + schedule.period := by
  cases schedule with
  | interval d => exact addDuration_ok h
  | cron expr => exact addDuration_ok h

/-! ## Which expressions panic -/

/-- An answer as it is meant: a positive interval, a cron expression or `InvalidSchedule`. -/
def Answered : Except Failure Schedule → Prop
  | .ok (.interval d) => 0 < d
  | .ok (.cron _) => True
  | .error (.error (.invalidSchedule _)) => True
  | .error .panic => False

/-- The seconds of each unit that `unitDuration` knows. -/
def unitSeconds : Char → Option ℤ
  | 's' => some 1
  | 'm' => some 60
  | 'h' => some 3600
  | 'd' => some 86400
  | _ => none

/-- The expression ends in a character of one byte, and a number before a known unit stays within
what a `Duration` holds. -/
def Fits (expr : String) : Prop :=
  ∀ unit ∈ (trim expr.toList).getLast?, unit.utf8Size = 1 ∧
    ∀ n ∈ parseI64 (trim expr.toList).dropLast, ∀ secs ∈ unitSeconds unit,
      -maxSeconds ≤ n * secs ∧ n * secs ≤ maxSeconds

theorem ofSeconds_panic {n : ℤ} :
    ofSeconds n = .error .panic ↔ ¬(-maxSeconds ≤ n ∧ n ≤ maxSeconds) := by
  unfold ofSeconds
  split
  · rename_i hout
    simp only [true_iff]
    omega
  · rename_i hin
    simp only [reduceCtorEq, false_iff, not_not]
    omega

/-- The unit's branch of the `match` panics on a number too large for it, and on no other. -/
theorem unitDuration_panic {n : ℤ} {unit : Char} :
    unitDuration n unit = .error .panic ↔
      ∃ secs ∈ unitSeconds unit, ¬(-maxSeconds ≤ n * secs ∧ n * secs ≤ maxSeconds) := by
  unfold unitDuration unitSeconds
  split
  case h_5 => simp [invalid]
  all_goals
    simp only [Option.mem_some_iff, exists_eq_left', mul_one]
    exact ofSeconds_panic

/-- `parse_interval` panics at the split of a last character of several bytes, and in
`Duration::seconds` and its siblings. -/
theorem parseInterval_panic : parseInterval expr = .error .panic ↔ ¬Fits expr := by
  unfold parseInterval Fits
  cases hlast : (trim expr.toList).getLast? with
  | none => simp [hlast, invalid]
  | some unit =>
    by_cases hbyte : unit.utf8Size = 1
    · cases hnum : parseI64 (trim expr.toList).dropLast with
      | none => simp [hlast, hbyte, hnum, invalid]
      | some n =>
        have hunit := @unitDuration_panic n unit
        simp only [hlast, hbyte, hnum, ne_eq, not_true, if_false, Option.mem_some_iff, forall_eq', true_and]
        push Not
        push Not at hunit
        rw [← hunit]
        cases unitDuration n unit with
        | error e => rfl
        | ok dur =>
          simp only [reduceCtorEq, iff_false]
          split
          · simp [invalid]
          · simp
    · simp [hlast, hbyte]

/-- **parse_answers_iff**: `parse` answers unless the kind is an interval whose expression does not
fit, and then it panics. -/
theorem parse_answers_iff (kind expr : String) :
    Answered (Schedule.parse kind expr) ↔ (kind = "interval" → Fits expr) := by
  unfold Schedule.parse
  split
  · rename_i hkind
    simp only [hkind, true_imp_iff]
    rw [← not_iff_not, ← parseInterval_panic]
    cases hparse : parseInterval expr with
    | ok d => simp [Except.map, Answered, parseInterval_pos hparse]
    | error e =>
      cases e with
      | panic => simp [Except.map, Answered]
      | error e => cases e; simp [Except.map, Answered]
  · rename_i hkind
    split
    · simp [Answered, hkind]
    · simp [Answered, invalid, hkind]

/-- A micro sign takes two bytes, and so many seconds are more than a `Duration` holds. -/
theorem parse_panics : ¬Answered (Schedule.parse "interval" "30µ") ∧
    ¬Answered (Schedule.parse "interval" "9223372036854776s") := by
  have hunit : Schedule.parse "interval" "30µ" = .error .panic := by decide
  have hnumber : Schedule.parse "interval" "9223372036854776s" = .error .panic := by decide
  rw [hunit, hnumber]
  exact ⟨id, id⟩

end Qtss.Scheduler
