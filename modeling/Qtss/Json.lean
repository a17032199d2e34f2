import Qtss.Execution.DryLedger
/-
# JSON values and the decimals in them

| here | there |
| --- | --- |
| `Json`, `get`, `asStr`, … | `serde_json::Value` and its accessors |
| `decimalFromStr`          | `Decimal::from_str`: an optional sign, digits with at most one point, `_` between digits |
| `parseF64`                | `str::parse::<f64>`: an exponent instead of `_`; `none` also for `inf` and `nan` |
| `eqIgnoreAsciiCase`       | `str::eq_ignore_ascii_case` |
| `decimalField`            | `v.get(k)`, `as_str`, `trim`, `from_str`: the same three lines in pnl.rs:121, fill_long_estimate.rs:41 and position_manager.rs:270 |

A `Number` is an integer or a float, as `as_i64` tells them apart. What `from_str` does with more digits than
a `Decimal` holds is left out with the rest of its rounding.
-/

namespace Qtss
open Execution.Dry (trim toAsciiUppercase)

def eqIgnoreAsciiCase (a b : String) : Bool := toAsciiUppercase a == toAsciiUppercase b

inductive Json where
  | null
  | bool (b : Bool)
  | int (n : ℤ)
  | float (q : ℚ)
  | str (s : String)
  | arr (xs : List Json)
  | obj (fields : List (String × Json))

namespace Json

def get (v : Json) (k : String) : Option Json :=
  match v with
  | .obj fields => fields.lookup k
  | _ => none

def asStr : Json → Option String
  | .str s => some s
  | _ => none

def asBool : Json → Option Bool
  | .bool b => some b
  | _ => none

def asArray : Json → Option (List Json)
  | .arr xs => some xs
  | _ => none

def asI64 : Json → Option ℤ
  | .int n => if -2 ^ 63 ≤ n ∧ n < 2 ^ 63 then some n else none
  | _ => none

def asU64 : Json → Option ℕ
  | .int n => if 0 ≤ n ∧ n < 2 ^ 64 then some n.toNat else none
  | _ => none

def asF64 : Json → Option ℚ
  | .int n => some n
  | .float q => some q
  | _ => none

@[simp] theorem asF64_float (q : ℚ) : (Json.float q).asF64 = some q := rfl

@[simp] theorem asStr_str (s : String) : (Json.str s).asStr = some s := rfl

/-- The object with one field set. -/
def set (v : Json) (k : String) (x : Json) : Json :=
  match v with
  | .obj fields => .obj ((k, x) :: fields.filter (·.1 ≠ k))
  | v => v

end Json

/-! ## Decimals -/

/-- The digits read so far, and how many of them stand after the point (`none` before the point). -/
structure Digits where
  value : ℕ
  seen : Bool
  scale : Option ℕ

def Digits.push (d : Digits) (c : Char) : Option Digits :=
  if c.isDigit then some ⟨d.value * 10 + (c.toNat - '0'.toNat), true, d.scale.map (· + 1)⟩
  else if c = '.' ∧ d.scale = none then some { d with scale := some 0 }
  else if c = '_' ∧ d.seen then some d
  else none

/-- Without a sign. -/
def magnitude (cs : List Char) : Option ℚ := do
  let d ← cs.foldlM Digits.push ⟨0, false, none⟩
  if d.seen then some (d.value / 10 ^ d.scale.getD 0) else none

def decimalFromStr (s : String) : Option ℚ :=
  match s.toList with
  | '-' :: cs => (magnitude cs).map (-·)
  | '+' :: cs => magnitude cs
  | cs => magnitude cs

/-- What stands after the `e`; `none` as well where there is none and something else is left. -/
def exponentOf : List Char → Option ℤ
  | [] => some 0
  | _ :: cs =>
    let digits := fun ds : List Char =>
      if ds.isEmpty || ds.contains '.' || ds.contains '_' then none else (magnitude ds).map (·.num)
    match cs with
    | '-' :: ds => (digits ds).map (-·)
    | '+' :: ds => digits ds
    | ds => digits ds

def parseF64 (s : String) : Option ℚ :=
  let unsigned := fun cs : List Char => do
    let (mantissa, rest) := cs.span fun c => c ≠ 'e' && c ≠ 'E'
    let m ← if mantissa.contains '_' then none else magnitude mantissa
    return m * 10 ^ (← exponentOf rest)
  match s.toList with
  | '-' :: cs => (unsigned cs).map (-·)
  | '+' :: cs => unsigned cs
  | cs => unsigned cs

/-- A decimal in a string under a key. -/
def decimalField (v : Json) (k : String) : Option ℚ := do
  let s ← (← v.get k).asStr
  decimalFromStr (trim s)

example : decimalFromStr "-12.50" = some (-25 / 2) := by decide +kernel

example : parseF64 "-1.25e2" = some (-125) := by decide +kernel

example : decimalField (.obj [("executedQty", .str " 0.75 ")]) "executedQty" = some (3 / 4) := by
  decide +kernel

theorem lookup_filter_ne {fields : List (String × Json)} {k j : String} (h : j ≠ k) :
    (fields.filter (·.1 ≠ k)).lookup j = fields.lookup j := by
  induction fields with
  | nil => rfl
  | cons p fields ih =>
    obtain ⟨i, x⟩ := p
    by_cases hi : i = k
    · have hj : (j == i) = false := by simp [hi, h]
      rw [List.filter_cons, if_neg (by simp [hi]), List.lookup_cons, hj, ih]
    · rw [List.filter_cons, if_pos (by simp [hi]), List.lookup_cons, List.lookup_cons, ih]

@[simp] theorem get_set_ne {v x : Json} {k j : String} (h : j ≠ k) : (v.set k x).get j = v.get j := by
  cases v with
  | obj fields =>
    have hj : (j == k) = false := by simp [h]
    simp only [Json.set, Json.get, List.lookup_cons, hj]
    exact lookup_filter_ne h
  | _ => rfl

@[simp] theorem get_set_eq {v x y : Json} {k j : String} (h : v.get j = some y) : (v.set k x).get k = some x := by
  cases v with
  | obj fields => simp [Json.set, Json.get]
  | _ => simp [Json.get] at h

end Qtss
