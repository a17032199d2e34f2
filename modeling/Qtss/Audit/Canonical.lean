import Mathlib.Algebra.Order.Ring.Rat
import Mathlib.Data.Bool.AllAny
import Mathlib.Data.List.Sort
import Mathlib.Data.String.Basic
import Mathlib.Logic.Function.Basic
import Qtss.Json
import Qtss.Lib.Delimited
import Qtss.Lib.Utf8
/-
# The text under the hash (`qtss-audit/src/chain.rs`, `types.rs`)

| here | there |
| --- | --- |
| `NewAuditEvent`     | types.rs:7 |
| `canonicalPayload`  | chain.rs:10: the strings of an event with a zero after each, and the payload |
| `canonicalizeValue` | chain.rs:30: no white space, keys in order, as they are and without quotes |
| `jsonText`          | `Value::to_string` of what is not an object or an array; `floatText` is `zmij`, which prints an `f64` |

A key stands in the text as it is. The text has one reading where no key has a colon or starts with a brace
(`canonicalPayload_inj`), but one with a colon can stand for two entries: `canonicalizeValue_fold`.
-/

namespace Qtss.Audit
open Delimited

abbrev Bytes := List UInt8

abbrev Uuid := { b : Bytes // b.length = 16 }

structure NewAuditEvent where
  actor : String
  action : String
  subject : String
  payload : Json
  correlationId : Option Uuid

/-! ## JSON -/

def hexDigit (n : ℕ) : Char := "0123456789abcdef".toList.getD n '0'

/-- What stands after the backslash. -/
def escapes : List (Char × Char) :=
  [('"', '"'), ('\\', '\\'), ('\x08', 'b'), ('\x0c', 'f'), ('\n', 'n'), ('\r', 'r'), ('\t', 't')]

def escapeChar (c : Char) : List Char :=
  match escapes.lookup c with
  | some e => ['\\', e]
  | none => if c.toNat < 0x20 then ['\\', 'u', '0', '0', hexDigit (c.toNat / 16), hexDigit (c.toNat % 16)] else [c]

def intText : ℤ → List Char
  | .ofNat n => Nat.toDigits 10 n
  | .negSucc n => '-' :: Nat.toDigits 10 (n + 1)

variable (floatText : ℚ → List Char)

def jsonText : Json → List Char
  | .null => "null".toList
  | .bool true => "true".toList
  | .bool false => "false".toList
  | .int n => intText n
  | .float q => floatText q
  | .str s => '"' :: s.toList.flatMap escapeChar ++ ['"']
  | .arr _ | .obj _ => []

mutual
def canonicalizeValue : Json → List Char
  | .obj fields =>
    let parts := ((canonicalizeFields fields).insertionSort (fun p q => p.1 ≤ q.1)).map fun p => p.1.toList ++ ':' :: p.2
    '{' :: join ',' parts ++ ['}']
  | .arr items => '[' :: join ',' (canonicalizeItems items) ++ [']']
  | v => jsonText floatText v

def canonicalizeItems : List Json → List (List Char)
  | [] => []
  | v :: vs => canonicalizeValue v :: canonicalizeItems vs

def canonicalizeFields : List (String × Json) → List (String × List Char)
  | [] => []
  | (k, v) :: fields => (k, canonicalizeValue v) :: canonicalizeFields fields
end

def canonicalPayload (evt : NewAuditEvent) : Bytes :=
  Utf8.bytes evt.actor.toList ++ [0] ++ Utf8.bytes evt.action.toList ++ [0] ++ Utf8.bytes evt.subject.toList ++ [0]
    ++ (evt.correlationId.elim [] (·.1)) ++ [0] ++ Utf8.bytes (canonicalizeValue floatText evt.payload)

/-- An entry as it stands in the text. -/
def fieldText (p : String × Json) : List Char := p.1.toList ++ ':' :: canonicalizeValue floatText p.2

/-- As a `serde_json::Map` keeps its entries. -/
def InOrder (fields : List (String × Json)) : Prop := fields.Pairwise fun p q => p.1 < q.1

variable {floatText} {c c' : Char} {s t : List Char} {v w : Json} {fields : List (String × Json)}

theorem canonicalizeItems_eq (items : List Json) :
    canonicalizeItems floatText items = items.map (canonicalizeValue floatText) := by
  induction items with
  | nil => rfl
  | cons v items ih => rw [canonicalizeItems, ih, List.map_cons]

theorem canonicalizeFields_eq (fields : List (String × Json)) :
    canonicalizeFields floatText fields = fields.map fun p => (p.1, canonicalizeValue floatText p.2) := by
  induction fields with
  | nil => rfl
  | cons p fields ih => rw [canonicalizeFields, ih, List.map_cons]

theorem canonicalizeValue_str (x : String) :
    canonicalizeValue floatText (.str x) = '"' :: x.toList.flatMap escapeChar ++ ['"'] := rfl

theorem canonicalizeValue_arr (items : List Json) : canonicalizeValue floatText (.arr items) =
    '[' :: join ',' (items.map (canonicalizeValue floatText)) ++ [']'] := by
  rw [canonicalizeValue, canonicalizeItems_eq]

theorem canonicalizeValue_obj (h : InOrder fields) : canonicalizeValue floatText (.obj fields) =
    '{' :: join ',' (fields.map (fieldText floatText)) ++ ['}'] := by
  have hsorted : (fields.map fun p => (p.1, canonicalizeValue floatText p.2)).Pairwise (fun p q => p.1 ≤ q.1) :=
    List.pairwise_map.2 (h.imp le_of_lt)
  rw [canonicalizeValue, canonicalizeFields_eq, hsorted.insertionSort_eq, List.map_map]
  rfl

/-! ## Reading it back -/

theorem escapeChar_cases (c : Char) : (∃ e, (c, e) ∈ escapes ∧ escapeChar c = ['\\', e]) ∨
    (c.toNat < 0x20 ∧ escapeChar c = ['\\', 'u', '0', '0', hexDigit (c.toNat / 16), hexDigit (c.toNat % 16)]) ∨
    (c ≠ '\\' ∧ c ≠ '"' ∧ 0x20 ≤ c.toNat ∧ escapeChar c = [c]) := by
  unfold escapeChar
  cases hlookup : escapes.lookup c with
  | some e =>
    obtain ⟨pre, post, hsplit, -⟩ := List.lookup_eq_some_iff.1 hlookup
    exact .inl ⟨e, by simp [hsplit], rfl⟩
  | none =>
    have hnot : ∀ e, (c, e) ∉ escapes := fun e hmem => by simpa using List.lookup_eq_none_iff.1 hlookup _ hmem
    by_cases hcontrol : c.toNat < 0x20
    · exact .inr (.inl ⟨hcontrol, by rw [if_pos hcontrol]⟩)
    · refine .inr (.inr ⟨?_, ?_, not_lt.1 hcontrol, by rw [if_neg hcontrol]⟩)
      · rintro rfl
        exact hnot '\\' (by decide)
      · rintro rfl
        exact hnot '"' (by decide)

theorem escapes_inj : ∀ p ∈ escapes, ∀ q ∈ escapes, p.2 = q.2 → p = q := by decide

theorem escapes_ne_u : ∀ p ∈ escapes, p.2 ≠ 'u' := by decide

theorem hexDigit_inj : ∀ m < 16, ∀ n < 16, hexDigit m = hexDigit n → m = n := by decide

/-- A backslash has one reading. -/
theorem escapeChar_inj (h : escapeChar c ++ s = escapeChar c' ++ t) : c = c' ∧ s = t := by
  rcases escapeChar_cases c with ⟨e, hmem, he⟩ | ⟨hlt, he⟩ | ⟨hne, -, -, he⟩ <;>
    rcases escapeChar_cases c' with ⟨e', hmem', he'⟩ | ⟨hlt', he'⟩ | ⟨hne', -, -, he'⟩ <;>
    rw [he, he'] at h <;>
    simp only [List.cons_append, List.nil_append, List.cons.injEq, true_and] at h
  · obtain ⟨hee, hst⟩ := h
    exact ⟨congrArg Prod.fst (escapes_inj _ hmem _ hmem' hee), hst⟩
  · exact absurd h.1 (escapes_ne_u _ hmem)
  · exact absurd h.1.symm hne'
  · exact absurd h.1.symm (escapes_ne_u _ hmem')
  · obtain ⟨hhigh, hlow, hst⟩ := h
    have hdiv := hexDigit_inj _ (by omega) _ (by omega) hhigh
    have hmod := hexDigit_inj _ (by omega) _ (by omega) hlow
    exact ⟨Char.toNat_inj.1 (by omega), hst⟩
  · exact absurd h.1.symm hne'
  · exact absurd h.1 hne
  · exact absurd h.1 hne
  · exact h

theorem escapeChar_ne_quote : escapeChar c ++ s ≠ '"' :: t := by
  intro h
  rcases escapeChar_cases c with ⟨e, -, he⟩ | ⟨-, he⟩ | ⟨-, hne, -, he⟩
  · rw [he] at h
    exact absurd (List.head_eq_of_cons_eq h) (by decide)
  · rw [he] at h
    exact absurd (List.head_eq_of_cons_eq h) (by decide)
  · rw [he] at h
    exact hne (List.head_eq_of_cons_eq h)

theorem ofNat_toDigits_inj {m n : ℕ} (h : Nat.toDigits 10 m = Nat.toDigits 10 n) : m = n := by
  rw [← Nat.ofDigitChars_ten_toDigits (n := m), h, Nat.ofDigitChars_ten_toDigits]

/-- The characters of numbers. -/
def IsNumberChar (c : Char) : Prop := c.isDigit ∨ c ∈ ['.', 'e', '-', '+']

theorem minus_not_mem_toDigits {n : ℕ} : '-' ∉ Nat.toDigits 10 n := fun h =>
  absurd (Nat.isDigit_of_mem_toDigits (by decide) (by decide) h) (by decide)

theorem intText_inj {m n : ℤ} (h : intText m = intText n) : m = n := by
  have hminus : ∀ m n : ℕ, Nat.toDigits 10 m ≠ '-' :: Nat.toDigits 10 n := fun m n h =>
    minus_not_mem_toDigits (n := m) (by simp [h])
  cases m with
  | ofNat m =>
    cases n with
    | ofNat n => rw [ofNat_toDigits_inj h]
    | negSucc n => exact absurd h (hminus m (n + 1))
  | negSucc m =>
    cases n with
    | ofNat n => exact absurd h.symm (hminus n (m + 1))
    | negSucc n => rw [Nat.succ.inj (ofNat_toDigits_inj (List.tail_eq_of_cons_eq h))]

theorem mem_intText {n : ℤ} (h : c ∈ intText n) : c.isDigit ∨ c = '-' := by
  have hdigit : ∀ n, c ∈ Nat.toDigits 10 n → c.isDigit := fun n h =>
    Nat.isDigit_of_mem_toDigits (by decide) (by decide) h
  cases n with
  | ofNat n => exact .inl (hdigit n h)
  | negSucc n =>
    rcases List.mem_cons.1 h with rfl | h
    · exact .inr rfl
    · exact .inl (hdigit (n + 1) h)

theorem intText_ne_nil {n : ℤ} : intText n ≠ [] := by
  cases n with
  | ofNat n => exact Nat.toDigits_ne_nil
  | negSucc n => exact List.cons_ne_nil _ _

/-- What is documented of the printer of floats: the text is that of one number only, and never that of an integer. -/
structure PrintsFloats (floatText : ℚ → List Char) : Prop where
  injective : Function.Injective floatText
  chars : ∀ q, ∀ c ∈ floatText q, IsNumberChar c
  point : ∀ q, '.' ∈ floatText q ∨ 'e' ∈ floatText q

/-- So does a printer of fractions, with a point for the bar. -/
theorem printsFloats_fraction : PrintsFloats fun q => intText q.num ++ '.' :: Nat.toDigits 10 q.den where
  injective q r h := by
    have hpoint : ∀ n, '.' ∉ intText n := fun n hmem => absurd (mem_intText hmem) (by decide)
    obtain ⟨hnum, hden⟩ := append_cons_inj (hpoint q.num) (hpoint r.num) h
    exact Rat.ext (intText_inj hnum) (ofNat_toDigits_inj hden)
  chars q c hc := by
    rcases List.mem_append.1 hc with hc | hc
    · exact (mem_intText hc).imp_right fun h => by rw [h]; decide
    · rcases List.mem_cons.1 hc with rfl | hc
      · exact .inr (by decide)
      · exact .inl (Nat.isDigit_of_mem_toDigits (by decide) (by decide) hc)
  point q := .inl (by simp)

/-- What can follow a value. -/
def Ends : List Char → Prop := StartsWith (· ∈ [',', ']', '}'])

/-- Which kind of value starts with the character. -/
def lead (c : Char) : ℕ :=
  if c = 'n' then 0 else if c = 't' ∨ c = 'f' then 1 else if c = '"' then 2 else if c = '[' then 3
  else if c = '{' then 4 else if c = ']' then 6 else 5

def kind : Json → ℕ
  | .null => 0
  | .bool _ => 1
  | .str _ => 2
  | .arr _ => 3
  | .obj _ => 4
  | .int _ | .float _ => 5

theorem lead_of_isNumberChar (h : IsNumberChar c) : lead c = 5 := by
  unfold lead
  split_ifs with hc hc hc hc hc hc <;> try rfl
  all_goals first
    | subst hc
      exact absurd h (by unfold IsNumberChar; decide)
    | rcases hc with rfl | rfl <;> exact absurd h (by unfold IsNumberChar; decide)

theorem not_isNumberChar_of_ends (h : Ends s) : StartsWith (¬ IsNumberChar ·) s := by
  intro c hc
  have hmem := h c hc
  simp only [List.mem_cons, List.not_mem_nil, or_false] at hmem
  unfold IsNumberChar
  rcases hmem with rfl | rfl | rfl <;> decide

/-- As the keys of a map that can be told from what follows them. -/
def PlainKey (k : String) : Prop := ':' ∉ k.toList ∧ '\x00' ∉ k.toList ∧ k.toList.head? ≠ some '}'

/-- The maps are in order, and their keys are plain. -/
inductive Plain : Json → Prop where
  | null : Plain .null
  | bool (b : Bool) : Plain (.bool b)
  | int (n : ℤ) : Plain (.int n)
  | float (q : ℚ) : Plain (.float q)
  | str (x : String) : Plain (.str x)
  | arr {items : List Json} : (∀ v ∈ items, Plain v) → Plain (.arr items)
  | obj {entries : List (String × Json)} : InOrder entries → (∀ p ∈ entries, PlainKey p.1) →
      (∀ p ∈ entries, Plain p.2) → Plain (.obj entries)

section reads
variable (hf : PrintsFloats floatText)
include hf

/-- Of an integer or a float. -/
theorem isNumberChar_of_mem (hv : kind v = 5) (h : c ∈ canonicalizeValue floatText v) : IsNumberChar c := by
  cases v with
  | int n => exact (mem_intText h).imp_right fun hc => by rw [hc]; decide
  | float q => exact hf.chars q c h
  | bool b => cases hv
  | _ => cases hv

theorem canonicalizeValue_lead (v : Json) : ∃ c rest, canonicalizeValue floatText v = c :: rest ∧ lead c = kind v := by
  have hnumber : kind v = 5 → canonicalizeValue floatText v ≠ [] →
      ∃ c rest, canonicalizeValue floatText v = c :: rest ∧ lead c = kind v := by
    intro hv hne
    obtain ⟨c, rest, hc⟩ := List.exists_cons_of_ne_nil hne
    refine ⟨c, rest, hc, ?_⟩
    rw [hv]
    exact lead_of_isNumberChar (isNumberChar_of_mem hf hv (by simp [hc]))
  cases v with
  | null => exact ⟨'n', _, rfl, rfl⟩
  | bool b =>
    cases b with
    | true => exact ⟨'t', _, rfl, rfl⟩
    | false => exact ⟨'f', _, rfl, rfl⟩
  | int n => exact hnumber rfl intText_ne_nil
  | float q =>
    refine hnumber rfl fun hnil => ?_
    have hpoint := hf.point q
    rw [show floatText q = [] from hnil] at hpoint
    simp at hpoint
  | str s => exact ⟨'"', _, rfl, rfl⟩
  | arr items => exact ⟨'[', _, canonicalizeValue_arr items, rfl⟩
  | obj fields =>
    rw [canonicalizeValue]
    exact ⟨'{', _, rfl, rfl⟩

theorem kind_eq (h : canonicalizeValue floatText v ++ s = canonicalizeValue floatText w ++ t) : kind v = kind w := by
  obtain ⟨c, x, hv, hlead⟩ := canonicalizeValue_lead hf v
  obtain ⟨c', y, hw, hlead'⟩ := canonicalizeValue_lead hf w
  rw [hv, hw] at h
  rw [← hlead, ← hlead', List.head_eq_of_cons_eq h]

/-- Of an integer or a float. -/
theorem number_inj (hv : kind v = 5) (hw : kind w = 5) (hs : Ends s) (ht : Ends t)
    (h : canonicalizeValue floatText v ++ s = canonicalizeValue floatText w ++ t) : v = w ∧ s = t := by
  obtain ⟨htext, hst⟩ := append_inj_of_all (fun c => isNumberChar_of_mem hf hv) (fun c => isNumberChar_of_mem hf hw)
    (not_isNumberChar_of_ends hs) (not_isNumberChar_of_ends ht) h
  refine ⟨?_, hst⟩
  have hne : ∀ n q, intText n ≠ floatText q := by
    intro n q heq
    have hpoint := hf.point q
    rw [← heq] at hpoint
    rcases hpoint with hmem | hmem
    · exact absurd (mem_intText hmem) (by decide)
    · exact absurd (mem_intText hmem) (by decide)
  cases v with
  | int n =>
    cases w with
    | int m => rw [intText_inj htext]
    | float q => exact absurd htext (hne n q)
    | _ => cases hw
  | float q =>
    cases w with
    | int m => exact absurd htext.symm (hne m q)
    | float r => rw [hf.injective htext]
    | _ => cases hw
  | _ => cases hv

theorem closes_items : Closes (canonicalizeValue floatText) Plain Ends ',' ']' where
  sep_ne_close := by decide
  ends_sep _ := startsWith_cons.2 (by decide)
  ends_close _ := startsWith_cons.2 (by decide)
  not_start v s t _ h := by
    obtain ⟨c, rest, hv, hlead⟩ := canonicalizeValue_lead hf v
    rw [hv] at h
    rw [List.head_eq_of_cons_eq h] at hlead
    cases v <;> cases hlead

omit hf in
theorem closes_fields : Closes (fieldText floatText) (fun p => PlainKey p.1 ∧ Plain p.2) Ends ',' '}' where
  sep_ne_close := by decide
  ends_sep _ := startsWith_cons.2 (by decide)
  ends_close _ := startsWith_cons.2 (by decide)
  not_start p s t hp h := by
    obtain ⟨⟨-, -, hhead⟩, -⟩ := hp
    unfold fieldText at h
    cases hkey : p.1.toList with
    | nil =>
      rw [hkey] at h
      exact absurd (List.head_eq_of_cons_eq h) (by decide)
    | cons c k =>
      rw [hkey] at h hhead
      exact hhead (congrArg some (List.head_eq_of_cons_eq h))

/-- **A value has one reading.** -/
theorem Plain.reads (hv : Plain v) : Reads (canonicalizeValue floatText) Plain Ends v := by
  induction hv with
  | null =>
    intro w s t _ _ _ h
    have hkind := kind_eq hf h
    cases w with
    | null => exact ⟨rfl, List.append_cancel_left h⟩
    | _ => cases hkind
  | bool b =>
    intro w s t _ _ _ h
    have hkind := kind_eq hf h
    cases w with
    | bool b' => cases b <;> cases b' <;> simp_all [canonicalizeValue, jsonText]
    | _ => cases hkind
  | int n =>
    intro w s t _ hs ht h
    exact number_inj hf rfl (kind_eq hf h).symm hs ht h
  | float q =>
    intro w s t _ hs ht h
    exact number_inj hf rfl (kind_eq hf h).symm hs ht h
  | str x =>
    intro w s t _ _ _ h
    have hkind := kind_eq hf h
    cases w with
    | str y =>
      rw [canonicalizeValue_str, canonicalizeValue_str, List.append_assoc, List.append_assoc] at h
      obtain ⟨hxy, hst⟩ := flatMap_inj (fun _ _ _ _ => escapeChar_inj) (fun _ _ _ => escapeChar_ne_quote)
        (List.tail_eq_of_cons_eq h)
      exact ⟨by rw [String.toList_inj.1 hxy], hst⟩
    | _ => cases hkind
  | @arr items hplain ih =>
    intro w s t hw _ _ h
    have hkind := kind_eq hf h
    cases hw with
    | @arr items' hplain' =>
      rw [canonicalizeValue_arr, canonicalizeValue_arr, List.append_assoc, List.append_assoc] at h
      obtain ⟨rfl, hst⟩ := (closes_items hf).join_inj (fun v hv => ⟨hplain v hv, ih v hv⟩) hplain'
        (List.tail_eq_of_cons_eq h)
      exact ⟨rfl, hst⟩
    | _ => cases hkind
  | @obj fields hsorted hkeys hplain ih =>
    intro w s t hw _ _ h
    have hkind := kind_eq hf h
    cases hw with
    | @obj fields' hsorted' hkeys' hplain' =>
      rw [canonicalizeValue_obj hsorted, canonicalizeValue_obj hsorted', List.append_assoc, List.append_assoc] at h
      have hreads : ∀ p ∈ fields, Reads (fieldText floatText) (fun p => PlainKey p.1 ∧ Plain p.2) Ends p := by
        intro p hp q s t hq hs ht heq
        unfold fieldText at heq
        rw [List.append_assoc, List.append_assoc] at heq
        obtain ⟨hkey, hrest⟩ := append_cons_inj (hkeys p hp).1 hq.1.1 heq
        obtain ⟨hvalue, hst⟩ := ih p hp q.2 s t hq.2 hs ht hrest
        exact ⟨Prod.ext (String.toList_inj.1 hkey) hvalue, hst⟩
      obtain ⟨rfl, hst⟩ := closes_fields.join_inj (fun p hp => ⟨⟨hkeys p hp, hplain p hp⟩, hreads p hp⟩)
        (fun p hp => ⟨hkeys' p hp, hplain' p hp⟩) (List.tail_eq_of_cons_eq h)
      exact ⟨rfl, hst⟩
    | _ => cases hkind

end reads

/-! ## Zeros -/

theorem zero_not_mem_toList {x : List Char} (h : '\x00' ∉ x) : 0 ∉ Utf8.bytes x := by
  intro hmem
  obtain ⟨pre, post, hsplit⟩ := List.append_of_mem hmem
  obtain ⟨a, c, b, rfl, -, -, hc⟩ := Utf8.bytes_split hsplit (by decide)
  rw [Char.toNat_inj.1 (show c.toNat = '\x00'.toNat from hc)] at h
  simp at h

theorem bytes_inj {x y : List Char} (h : Utf8.bytes x = Utf8.bytes y) : x = y := by
  have hencode : x.utf8Encode = y.utf8Encode := congrArg List.toByteArray h
  have hdecode := congrArg ByteArray.utf8Decode? hencode
  rw [List.utf8Decode?_utf8Encode, List.utf8Decode?_utf8Encode] at hdecode
  exact List.toArray_inj (Option.some.inj hdecode)

theorem escapes_ne_zero : ∀ p ∈ escapes, p.2 ≠ '\x00' := by decide

theorem hexDigit_ne_zero : ∀ n < 16, hexDigit n ≠ '\x00' := by decide

theorem zero_not_mem_escapeChar (c : Char) : '\x00' ∉ escapeChar c := by
  rcases escapeChar_cases c with ⟨e, hmem, he⟩ | ⟨hlt, he⟩ | ⟨-, -, hle, he⟩
  · have hne := escapes_ne_zero _ hmem
    rw [he]
    simpa using hne.symm
  · have hhigh := hexDigit_ne_zero (c.toNat / 16) (by omega)
    have hlow := hexDigit_ne_zero (c.toNat % 16) (by omega)
    rw [he]
    simpa using ⟨hhigh.symm, hlow.symm⟩
  · rw [he, List.mem_singleton]
    rintro rfl
    exact absurd hle (by decide)

theorem Plain.zero_not_mem (hf : PrintsFloats floatText) (hv : Plain v) : '\x00' ∉ canonicalizeValue floatText v := by
  have hnumber : ∀ w, kind w = 5 → '\x00' ∉ canonicalizeValue floatText w := fun w hw hmem =>
    absurd (isNumberChar_of_mem hf hw hmem) (by unfold IsNumberChar; decide)
  induction hv with
  | null => exact fun h => absurd (show '\x00' ∈ "null".toList from h) (by decide)
  | bool b =>
    cases b with
    | true => exact fun h => absurd (show '\x00' ∈ "true".toList from h) (by decide)
    | false => exact fun h => absurd (show '\x00' ∈ "false".toList from h) (by decide)
  | int n => exact hnumber _ rfl
  | float q => exact hnumber _ rfl
  | str x =>
    rw [canonicalizeValue_str]
    simp [zero_not_mem_escapeChar]
  | arr _ ih =>
    rw [canonicalizeValue_arr]
    intro hmem
    simp only [List.cons_append, List.mem_cons, List.mem_append, List.not_mem_nil, or_false] at hmem
    rcases hmem with h | hmem | h
    · exact absurd h (by decide)
    · rcases mem_join hmem with h | ⟨x, hx, hmem⟩
      · exact absurd h (by decide)
      · obtain ⟨w, hw, rfl⟩ := List.mem_map.1 hx
        exact ih w hw hmem
    · exact absurd h (by decide)
  | obj hsorted hkeys _ ih =>
    rw [canonicalizeValue_obj hsorted]
    intro hmem
    simp only [List.cons_append, List.mem_cons, List.mem_append, List.not_mem_nil, or_false] at hmem
    rcases hmem with h | hmem | h
    · exact absurd h (by decide)
    · rcases mem_join hmem with h | ⟨x, hx, hmem⟩
      · exact absurd h (by decide)
      · obtain ⟨p, hp, rfl⟩ := List.mem_map.1 hx
        rcases List.mem_append.1 hmem with hkey | hmem
        · exact (hkeys p hp).2.1 hkey
        · rcases List.mem_cons.1 hmem with h | hmem
          · exact absurd h (by decide)
          · exact ih p hp hmem
    · exact absurd h (by decide)

/-! ## Events -/

/-- As Postgres keeps them, which has no zeros in its texts, with plain keys. -/
structure NewAuditEvent.Plain (evt : NewAuditEvent) : Prop where
  actor : '\x00' ∉ evt.actor.toList
  action : '\x00' ∉ evt.action.toList
  subject : '\x00' ∉ evt.subject.toList
  payload : Audit.Plain evt.payload

/-- A zero ends the id of a correlation, which may have zeros itself, but the payload has none. -/
theorem correlation_inj {i j : Option Uuid} {x y : Bytes} (hx : 0 ∉ x) (hy : 0 ∉ y)
    (h : i.elim [] (·.1) ++ 0 :: x = j.elim [] (·.1) ++ 0 :: y) : i = j ∧ x = y := by
  have hnone : ∀ (u : Uuid) {x y : Bytes}, 0 ∉ x → u.1 ++ 0 :: y ≠ 0 :: x := by
    intro u x y hx heq
    obtain ⟨z, hz⟩ : ∃ z, z ++ 0 :: y = x := by
      obtain ⟨b, z, hb⟩ := List.exists_cons_of_length_pos (l := u.1) (by rw [u.2]; decide)
      rw [hb] at heq
      exact ⟨z, List.tail_eq_of_cons_eq heq⟩
    exact hx (by simp [← hz])
  cases i with
  | none =>
    cases j with
    | none => exact ⟨rfl, List.tail_eq_of_cons_eq h⟩
    | some u => exact absurd h.symm (hnone u hx)
  | some u =>
    cases j with
    | none => exact absurd h (hnone u hy)
    | some u' =>
      obtain ⟨huuid, hrest⟩ := List.append_inj h (u.2.trans u'.2.symm)
      exact ⟨congrArg some (Subtype.ext huuid), List.tail_eq_of_cons_eq hrest⟩

/-- **The text determines the event.** -/
theorem canonicalPayload_inj (hf : PrintsFloats floatText) {e e' : NewAuditEvent} (he : e.Plain) (he' : e'.Plain)
    (h : canonicalPayload floatText e = canonicalPayload floatText e') : e = e' := by
  unfold canonicalPayload at h
  simp only [List.append_assoc, List.singleton_append] at h
  obtain ⟨hactor, h⟩ := append_cons_inj (zero_not_mem_toList he.actor) (zero_not_mem_toList he'.actor) h
  obtain ⟨haction, h⟩ := append_cons_inj (zero_not_mem_toList he.action) (zero_not_mem_toList he'.action) h
  obtain ⟨hsubject, h⟩ := append_cons_inj (zero_not_mem_toList he.subject) (zero_not_mem_toList he'.subject) h
  obtain ⟨hcorrelation, h⟩ := correlation_inj (zero_not_mem_toList (he.payload.zero_not_mem hf))
    (zero_not_mem_toList (he'.payload.zero_not_mem hf)) h
  have hpayload : e.payload = e'.payload := by
    refine (he.payload.reads hf e'.payload [] [] he'.payload startsWith_nil startsWith_nil ?_).1
    rw [bytes_inj h]
  cases e
  cases e'
  simp only [NewAuditEvent.mk.injEq]
  exact ⟨String.toList_inj.1 (bytes_inj hactor), String.toList_inj.1 (bytes_inj haction),
    String.toList_inj.1 (bytes_inj hsubject), hpayload, hcorrelation⟩

/-! ## Two entries in one -/

/-- Under this key the second of two entries stands for both. -/
def foldedKey (floatText : ℚ → List Char) (k₁ : String) (v₁ : Json) (k₂ : String) : String :=
  String.ofList (fieldText floatText (k₁, v₁) ++ ',' :: k₂.toList)

theorem lt_foldedKey (k₁ : String) (v₁ : Json) (k₂ : String) : k₁ < foldedKey floatText k₁ v₁ k₂ := by
  rw [String.lt_iff_toList_lt, foldedKey, String.toList_ofList, fieldText, List.append_assoc]
  conv_lhs => rw [← List.append_nil k₁.toList]
  exact List.append_left_lt (List.nil_lt_cons _ _)

theorem InOrder.fold {pre : List (String × Json)} {k₁ k₂ : String} {v₁ v₂ : Json}
    (h : InOrder (pre ++ [(k₁, v₁), (k₂, v₂)])) : InOrder (pre ++ [(foldedKey floatText k₁ v₁ k₂, v₂)]) := by
  obtain ⟨hpre, -, hcross⟩ := List.pairwise_append.1 h
  refine List.pairwise_append.2 ⟨hpre, List.pairwise_singleton _ _, fun p hp q hq => ?_⟩
  obtain rfl := List.mem_singleton.1 hq
  exact (hcross p hp (k₁, v₁) List.mem_cons_self).trans (lt_foldedKey k₁ v₁ k₂)

/-- **The last two entries of a map may as well be one.** -/
theorem canonicalizeValue_fold {pre : List (String × Json)} {k₁ k₂ : String} {v₁ v₂ : Json}
    (h : InOrder (pre ++ [(k₁, v₁), (k₂, v₂)])) :
    canonicalizeValue floatText (.obj (pre ++ [(foldedKey floatText k₁ v₁ k₂, v₂)])) =
      canonicalizeValue floatText (.obj (pre ++ [(k₁, v₁), (k₂, v₂)])) := by
  have hfolded : fieldText floatText (foldedKey floatText k₁ v₁ k₂, v₂) =
      fieldText floatText (k₁, v₁) ++ ',' :: fieldText floatText (k₂, v₂) := by
    simp [fieldText, foldedKey, String.toList_ofList]
  rw [canonicalizeValue_obj h.fold, canonicalizeValue_obj h, List.map_append, List.map_append, List.map_singleton, hfolded,
    join_append_pair]
  rfl

end Qtss.Audit
