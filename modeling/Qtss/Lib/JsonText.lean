import Mathlib.Data.Bool.AllAny
import Mathlib.Data.List.Basic
import Mathlib.Order.Nat
/-!
# JSON texts

The grammar of RFC 8259 over characters: `Derives` has a constructor for each production of values, and strings and
numbers are predicates of their own. A machine that tells strings from what is outside of them and counts braces
(`Reader`) reads a value, from any depth, back to that depth (`Derives.run`), whatever its strings contain.
-/

namespace JsonText

def Spaces (w : List Char) : Prop := ∀ c ∈ w, c ∈ [' ', '\t', '\n', '\r']

def IsHex (c : Char) : Prop := c.isDigit ∨ c ∈ ['a', 'b', 'c', 'd', 'e', 'f', 'A', 'B', 'C', 'D', 'E', 'F']

instance : DecidablePred IsHex := fun _ => inferInstanceAs (Decidable (_ ∨ _))

/-- What stands between the quotes of a string. -/
inductive Body : List Char → Prop where
  | nil : Body []
  | plain {c : Char} {s : List Char} : c ≠ '"' → c ≠ '\\' → 0x20 ≤ c.toNat → Body s → Body (c :: s)
  | escape {c : Char} {s : List Char} : c ∈ ['"', '\\', '/', 'b', 'f', 'n', 'r', 't'] → Body s → Body ('\\' :: c :: s)
  | unicode {a b c d : Char} {s : List Char} : IsHex a → IsHex b → IsHex c → IsHex d → Body s →
      Body ('\\' :: 'u' :: a :: b :: c :: d :: s)

def IsString (s : List Char) : Prop := ∃ body, Body body ∧ s = '"' :: body ++ ['"']

def IsDigits (s : List Char) : Prop := s ≠ [] ∧ ∀ c ∈ s, c.isDigit

def IsInteger (s : List Char) : Prop := s = ['0'] ∨ IsDigits s ∧ s.head? ≠ some '0'

def IsFraction (s : List Char) : Prop := s = [] ∨ ∃ ds, IsDigits ds ∧ s = '.' :: ds

def IsExponent (s : List Char) : Prop :=
  s = [] ∨ ∃ e sign ds, e ∈ ['e', 'E'] ∧ sign ∈ [[], ['+'], ['-']] ∧ IsDigits ds ∧ s = e :: sign ++ ds

def IsNumber (s : List Char) : Prop :=
  ∃ sign int frac exp, sign ∈ [[], ['-']] ∧ IsInteger int ∧ IsFraction frac ∧ IsExponent exp ∧
    s = sign ++ int ++ frac ++ exp

def literals : List (List Char) := ["true".toList, "false".toList, "null".toList]

inductive Nonterminal where
  | value | element | elements | member | members
deriving DecidableEq

open Nonterminal in
inductive Derives : Nonterminal → List Char → Prop where
  | literal {s} : s ∈ literals → Derives value s
  | number {s} : IsNumber s → Derives value s
  | string {s} : IsString s → Derives value s
  | emptyArray {w} : Spaces w → Derives value ('[' :: w ++ [']'])
  | array {es} : Derives elements es → Derives value ('[' :: es ++ [']'])
  | emptyObject {w} : Spaces w → Derives value ('{' :: w ++ ['}'])
  | object {ms} : Derives members ms → Derives value ('{' :: ms ++ ['}'])
  | element {w v w'} : Spaces w → Derives value v → Spaces w' → Derives element (w ++ v ++ w')
  | lastElement {e} : Derives element e → Derives elements e
  | elements {e es} : Derives element e → Derives elements es → Derives elements (e ++ ',' :: es)
  | member {w k w' e} : Spaces w → IsString k → Spaces w' → Derives element e →
      Derives member (w ++ k ++ w' ++ ':' :: e)
  | lastMember {m} : Derives member m → Derives members m
  | members {m ms} : Derives member m → Derives members ms → Derives members (m ++ ',' :: ms)

/-- A value with white space around it. -/
def IsText (s : List Char) : Prop := Derives .element s

def IsObject (s : List Char) : Prop := Derives .value s ∧ s.head? = some '{'

/-! ## Characters outside of strings -/

/-- Of none of the characters that a reader has to tell apart. -/
def Plain (s : List Char) : Prop := ∀ c ∈ s, c ∉ ['"', '\\', '{', '}']

section plain
variable {s t : List Char}

theorem Plain.append (hs : Plain s) (ht : Plain t) : Plain (s ++ t) := fun c hc =>
  (List.mem_append.1 hc).elim (hs c) (ht c)

theorem Plain.cons {c : Char} (hc : c ∉ ['"', '\\', '{', '}']) (hs : Plain s) : Plain (c :: s) := fun x hx => by
  obtain rfl | hx := List.mem_cons.1 hx
  · exact hc
  · exact hs x hx

theorem Plain.nil : Plain [] := fun _ h => absurd h List.not_mem_nil

theorem Plain.of_all {p : Char → Prop} (hs : ∀ c ∈ s, p c) (hp : ∀ c ∈ ['"', '\\', '{', '}'], ¬ p c) : Plain s :=
  fun c hc hmem => hp c hmem (hs c hc)

theorem Spaces.plain (h : Spaces s) : Plain s := Plain.of_all h (List.all_iff_forall_prop.1 (by decide))

theorem IsDigits.plain (h : IsDigits s) : Plain s := Plain.of_all h.2 (List.all_iff_forall_prop.1 (by decide))

theorem IsNumber.plain (h : IsNumber s) : Plain s := by
  obtain ⟨sign, int, frac, exp, hsign, hint, hfrac, hexp, rfl⟩ := h
  have hsign : Plain sign := by
    simp only [List.mem_cons, List.not_mem_nil, or_false] at hsign
    rcases hsign with rfl | rfl
    · exact .nil
    · exact .cons (by decide) .nil
  have hint : Plain int := by
    rcases hint with rfl | ⟨hint, -⟩
    · exact .cons (by decide) .nil
    · exact hint.plain
  have hfrac : Plain frac := by
    rcases hfrac with rfl | ⟨ds, hds, rfl⟩
    · exact .nil
    · exact .cons (by decide) hds.plain
  refine ((hsign.append hint).append hfrac).append ?_
  rcases hexp with rfl | ⟨e, sign, ds, he, hsgn, hds, rfl⟩
  · exact .nil
  · simp only [List.mem_cons, List.not_mem_nil, or_false] at he hsgn
    have hmark : Plain [e] := by rcases he with rfl | rfl <;> exact .cons (by decide) .nil
    have hsgn : Plain sign := by
      rcases hsgn with rfl | rfl | rfl
      · exact .nil
      · exact .cons (by decide) .nil
      · exact .cons (by decide) .nil
    exact (hmark.append hsgn).append hds.plain

theorem plain_of_mem_literals (h : s ∈ literals) : Plain s := by
  have hall : ∀ l ∈ literals, l.all fun c => c ∉ ['"', '\\', '{', '}'] := by decide
  exact List.all_iff_forall_prop.1 (hall s h)

end plain

/-! ## Readers -/

section reader
variable {σ : Type*} {step : σ → Char → Option σ} {out inside escaped : ℕ → σ} {s t : List Char} {nt : Nonterminal}
  {d : ℕ}

/-- A machine with a state outside of strings, one inside and one behind a backslash, for each number of open braces.
Behind a backslash no character but those of an escape need be read. -/
structure Reader (step : σ → Char → Option σ) (out inside escaped : ℕ → σ) : Prop where
  plain : ∀ d c, c ∉ ['"', '\\', '{', '}'] → step (out d) c = some (out d)
  opens : ∀ d, step (out d) '{' = some (out (d + 1))
  closes : ∀ d, step (out (d + 1)) '}' = some (out d)
  quote : ∀ d, step (out d) '"' = some (inside d)
  text : ∀ d c, c ≠ '"' → c ≠ '\\' → step (inside d) c = some (inside d)
  backslash : ∀ d, step (inside d) '\\' = some (escaped d)
  escape : ∀ d c, c ∈ ['"', '\\', '/', 'b', 'f', 'n', 'r', 't', 'u'] → step (escaped d) c = some (inside d)
  unquote : ∀ d, step (inside d) '"' = some (out d)

theorem foldlM_cons_of {c : Char} {st st' : σ} (h : step st c = some st') (s : List Char) :
    (c :: s).foldlM step st = s.foldlM step st' := by
  rw [List.foldlM_cons, h]
  rfl

theorem foldlM_append_of {st st' : σ} (h : s.foldlM step st = some st') (t : List Char) :
    (s ++ t).foldlM step st = t.foldlM step st' := by
  rw [List.foldlM_append, h]
  rfl

variable (hreader : Reader step out inside escaped)
include hreader

theorem Plain.run (h : Plain s) : s.foldlM step (out d) = some (out d) := by
  induction s with
  | nil => rfl
  | cons c s ih =>
    rw [foldlM_cons_of (hreader.plain d c (h c List.mem_cons_self))]
    exact ih fun x hx => h x (List.mem_cons_of_mem _ hx)

theorem IsHex.text {c : Char} (h : IsHex c) : step (inside d) c = some (inside d) := by
  refine hreader.text d c ?_ ?_
  · rintro rfl
    exact absurd h (by decide)
  · rintro rfl
    exact absurd h (by decide)

theorem Body.run (h : Body s) : s.foldlM step (inside d) = some (inside d) := by
  induction h with
  | nil => rfl
  | @plain c s hquote hslash _ _ ih =>
    rw [foldlM_cons_of (hreader.text d c hquote hslash)]
    exact ih
  | @escape c s hc _ ih =>
    have hc : c ∈ ['"', '\\', '/', 'b', 'f', 'n', 'r', 't', 'u'] := by
      simp only [List.mem_cons, List.not_mem_nil, or_false] at hc ⊢
      tauto
    rw [foldlM_cons_of (hreader.backslash d), foldlM_cons_of (hreader.escape d c hc)]
    exact ih
  | unicode ha hb hc hd _ ih =>
    rw [foldlM_cons_of (hreader.backslash d), foldlM_cons_of (hreader.escape d 'u' (by decide)),
      foldlM_cons_of (ha.text hreader), foldlM_cons_of (hb.text hreader), foldlM_cons_of (hc.text hreader),
      foldlM_cons_of (hd.text hreader)]
    exact ih

theorem IsString.run (h : IsString s) : s.foldlM step (out d) = some (out d) := by
  obtain ⟨body, hbody, rfl⟩ := h
  rw [List.cons_append, foldlM_cons_of (hreader.quote d), foldlM_append_of (hbody.run hreader),
    foldlM_cons_of (hreader.unquote d)]
  rfl

/-- A bracket on either side, of no consequence. -/
theorem run_brackets (h : s.foldlM step (out d) = some (out d)) :
    ('[' :: s ++ [']']).foldlM step (out d) = some (out d) := by
  have hopen : Plain ['['] := .cons (by decide) .nil
  have hclose : Plain [']'] := .cons (by decide) .nil
  rw [List.cons_append, ← List.singleton_append, foldlM_append_of (hopen.run hreader), foldlM_append_of h,
    hclose.run hreader]

theorem run_braces (h : ∀ d, s.foldlM step (out d) = some (out d)) :
    ('{' :: s ++ ['}']).foldlM step (out d) = some (out d) := by
  rw [List.cons_append, foldlM_cons_of (hreader.opens d), foldlM_append_of (h _), foldlM_cons_of (hreader.closes d)]
  rfl

theorem run_separated {c : Char} (hc : c ∉ ['"', '\\', '{', '}']) (hs : s.foldlM step (out d) = some (out d))
    (ht : t.foldlM step (out d) = some (out d)) : (s ++ c :: t).foldlM step (out d) = some (out d) := by
  rw [foldlM_append_of hs, foldlM_cons_of (hreader.plain d c hc)]
  exact ht

/-- **A reader** gets through what the grammar derives, and ends as deep as it started. -/
theorem Derives.run (h : Derives nt s) (d : ℕ) : s.foldlM step (out d) = some (out d) := by
  induction h generalizing d with
  | literal h => exact (plain_of_mem_literals h).run hreader
  | number h => exact h.plain.run hreader
  | string h => exact h.run hreader
  | emptyArray h => exact run_brackets hreader (h.plain.run hreader)
  | array _ ih => exact run_brackets hreader (ih d)
  | emptyObject h => exact run_braces hreader fun _ => h.plain.run hreader
  | object _ ih => exact run_braces hreader ih
  | element hw _ hw' ih =>
    rw [List.append_assoc, foldlM_append_of (hw.plain.run hreader), foldlM_append_of (ih d), hw'.plain.run hreader]
  | lastElement _ ih => exact ih d
  | elements _ _ ih ih' => exact run_separated hreader (by decide) (ih d) (ih' d)
  | member hw hk hw' _ ih =>
    refine run_separated hreader (by decide) ?_ (ih d)
    rw [List.append_assoc, foldlM_append_of (hw.plain.run hreader), foldlM_append_of (hk.run hreader),
      hw'.plain.run hreader]
  | lastMember _ ih => exact ih d
  | members _ _ ih ih' => exact run_separated hreader (by decide) (ih d) (ih' d)

/-- An object is what is between its braces, which a reader gets through. -/
theorem IsObject.between (h : IsObject s) : ∃ t, s = '{' :: t ++ ['}'] ∧ ∀ d, t.foldlM step (out d) = some (out d) := by
  obtain ⟨hderives, hhead⟩ := h
  cases hderives with
  | emptyObject h => exact ⟨_, rfl, fun _ => h.plain.run hreader⟩
  | object h => exact ⟨_, rfl, h.run hreader⟩
  | literal h =>
    have hnone : ∀ l ∈ literals, l.head? ≠ some '{' := by decide
    exact absurd hhead (hnone s h)
  | number h => exact absurd (h.plain _ (List.mem_of_mem_head? hhead)) (by decide)
  | string h =>
    obtain ⟨body, -, rfl⟩ := h
    cases hhead
  | emptyArray h => cases hhead
  | array h => cases hhead

end reader

/-- A text that starts with a brace is an object and the white space after it. -/
theorem IsText.object {s : List Char} (h : IsText s) (hhead : s.head? = some '{') :
    ∃ o w, IsObject o ∧ Spaces w ∧ s = o ++ w := by
  cases h with
  | @element w v w' hw hv hw' =>
    cases w with
    | nil =>
      refine ⟨v, w', ⟨hv, ?_⟩, hw', rfl⟩
      cases v with
      | nil =>
        cases w' with
        | nil => cases hhead
        | cons c w' => exact absurd (Option.some.inj hhead ▸ hw' c List.mem_cons_self) (by decide)
      | cons c v => exact hhead
    | cons c w => exact absurd (Option.some.inj hhead ▸ hw c List.mem_cons_self) (by decide)

theorem IsObject.isText {s : List Char} (h : IsObject s) : IsText s := by
  have htext : IsText ([] ++ s ++ []) := .element (fun _ h => absurd h List.not_mem_nil) h.1
    (fun _ h => absurd h List.not_mem_nil)
  rwa [List.nil_append, List.append_nil] at htext

end JsonText
