import Qtss.Ai.ParserPanic
import Qtss.Lib.JsonText
/-
# The object in a reply

`from_str` accepts the JSON texts (`AcceptsJson`). The brace that `find_matching_brace` finds for an object is its last
one, whatever its strings contain, and for a text that breaks off in an object it finds none (`object_braces`): an object
is extracted as it stands, and nothing is out of a part of it (`tryExtractJsonObject_object`, `…_cut`). A fence that
opens before the object changes nothing (`fence_attempt`). One that opens in it, in a string, or after it is looked at
first all the same: the object comes out if there is none, or nothing is found behind it (`extractJsonBlock_object`).
-/

namespace Qtss.Ai.Parser
open Utf8 JsonText
open Execution.Dry (isWhitespace)

/-- `serde_json::from_str::<Value>` accepts the JSON texts. -/
def AcceptsJson (libs : Libs) : Prop := ∀ s, (libs.fromStr s).isOk ↔ IsText s

/-- It accepts nothing else. -/
def OnlyJson (libs : Libs) : Prop := ∀ s, (libs.fromStr s).isOk → IsText s

theorem AcceptsJson.only {libs : Libs} (h : AcceptsJson libs) : OnlyJson libs := fun s => (h s).1

/-- A brace is of no case. -/
def KeepsBrace (libs : Libs) : Prop := ∀ s, '{' ∈ s → '{' ∈ libs.toLowercase s

/-! ## Matching braces -/

theorem reader_brace : Reader braceChar (fun d => ⟨d + 1, false, false⟩) (fun d => ⟨d + 1, true, false⟩)
    fun d => ⟨d + 1, true, true⟩ where
  plain d c hc := by
    simp only [List.mem_cons, List.not_mem_nil, or_false, not_or] at hc
    simp [braceChar, hc.1, hc.2.2.1, hc.2.2.2]
  opens d := by simp [braceChar]
  closes d := by
    have hdepth : (d : ℤ) + 1 ≠ 0 := by omega
    simp [braceChar, hdepth]
  quote d := rfl
  text d c hquote hslash := by simp [braceChar, hquote, hslash]
  backslash d := rfl
  escape d c hc := rfl
  unquote d := rfl

section object
variable {libs : Libs} {o p q s t : Text}

/-- The scan of an object stops at its last character. -/
theorem object_braces (ho : IsObject o) : ∃ t, o = t ++ ['}'] ∧
    t.foldlM braceChar ⟨0, false, false⟩ = some ⟨1, false, false⟩ ∧ braceChar ⟨1, false, false⟩ '}' = none := by
  obtain ⟨t, rfl, ht⟩ := ho.between reader_brace
  exact ⟨'{' :: t, rfl, (foldlM_cons_of (show braceChar ⟨0, false, false⟩ '{' = some ⟨1, false, false⟩ from rfl) t).trans
    (ht 0), rfl⟩

theorem findMatchingBrace_object (ho : IsObject o) : ∃ t, o = t ++ ['}'] ∧
    ∀ s, findMatchingBrace (o ++ s) = some (size t) := by
  obtain ⟨t, rfl, ht, hstop⟩ := object_braces ho
  refine ⟨t, rfl, fun s => ?_⟩
  rw [findMatchingBrace_eq, List.append_assoc, stop_append ht, List.singleton_append, stop, hstop]
  simp

/-- A part from the start on, and not all of it. -/
def Cut (q o : Text) : Prop := q <+: o ∧ q ≠ o

theorem findMatchingBrace_cut (ho : IsObject o) (hcut : Cut q o) : findMatchingBrace q = none := by
  obtain ⟨t, rfl, ht, -⟩ := object_braces ho
  obtain ⟨r, rfl⟩ := (List.prefix_concat_iff.1 hcut.1).resolve_left hcut.2
  rw [findMatchingBrace_eq]
  rw [List.foldlM_append] at ht
  obtain ⟨st, hst, -⟩ := Option.bind_eq_some_iff.1 ht
  exact stop_eq_none hst

/-- No part of an object is a JSON text. -/
theorem not_isText_of_cut (ho : IsObject o) (hcut : Cut q o) (hhead : q.head? = some '{') : ¬ IsText q := by
  intro htext
  obtain ⟨o', w, ho', -, rfl⟩ := htext.object hhead
  obtain ⟨t, -, hfound⟩ := findMatchingBrace_object ho'
  have hfound := hfound w
  rw [findMatchingBrace_cut ho hcut] at hfound
  cases hfound

/-! ## Out of a text that starts with the object -/

theorem extractFrom_object (haccept : AcceptsJson libs) (ho : IsObject o) (s : Text) :
    extractFrom libs (o ++ s) = .ok o := by
  obtain ⟨t, rfl, hfound⟩ := findMatchingBrace_object ho
  rw [extractFrom, hfound]
  dsimp only
  rw [← List.append_cons, sliceTo_through (by decide), ok_bind, if_pos ((haccept _).2 ho.isText)]
  rfl

theorem Cut.trans_prefix (hcut : Cut q o) (hp : p <+: q) : Cut p o := by
  refine ⟨hp.trans hcut.1, ?_⟩
  rintro rfl
  exact hcut.2 (hcut.1.eq_of_length_le hp.length_le)

theorem Cut.head (ho : IsObject o) (hcut : Cut q o) (hq : q ≠ []) : q.head? = some '{' := by
  obtain ⟨c, q, rfl⟩ := List.exists_cons_of_ne_nil hq
  obtain ⟨r, rfl⟩ := hcut.1
  exact ho.2

theorem tryBraces_cut (honly : OnlyJson libs) (ho : IsObject o) (pre rest : Text) (hcut : Cut (pre ++ rest) o) :
    tryBraces libs (pre ++ rest) (size pre) rest = .error (.err (.parse "unbalanced JSON braces")) := by
  induction rest generalizing pre with
  | nil => rfl
  | cons ch rest ih =>
    have hrest := ih (pre ++ [ch]) (by rwa [← List.append_cons])
    rw [← List.append_cons, size_append, size_cons, size_nil, Nat.add_zero] at hrest
    rw [tryBraces]
    split
    · exact hrest
    · rename_i hch
      obtain rfl := not_not.1 hch
      have hpart : Cut (pre ++ ['}']) o := hcut.trans_prefix ⟨rest, by rw [← List.append_cons]⟩
      rw [utf8Size_of_ascii (by decide), sliceTo_through (by decide), ok_bind]
      cases hfrom : libs.fromStr (pre ++ ['}']) with
      | error e => exact hrest
      | ok v =>
        have htext := honly (pre ++ ['}']) (by rw [hfrom]; rfl)
        exact absurd htext (not_isText_of_cut ho hpart (hpart.head ho (by simp)))

theorem extractFrom_cut (honly : OnlyJson libs) (ho : IsObject o) (hcut : Cut q o) :
    extractFrom libs q = .error (.err (.parse "unbalanced JSON braces")) := by
  rw [extractFrom, findMatchingBrace_cut ho hcut]
  exact tryBraces_cut honly ho [] q hcut

end object

/-! ## White space -/

section trim
variable {a b p z : Text}

theorem trimStart_append {c : Char} (hz : z.head? = some c) (hc : isWhitespace c = false) (p : Text) :
    trimStart (p ++ z) = trimStart p ++ z := by
  obtain ⟨z, rfl⟩ : ∃ z', z = c :: z' := by
    cases z with
    | nil => cases hz
    | cons x z => exact ⟨z, by rw [Option.some.inj hz]⟩
  rw [trimStart, List.dropWhile_append]
  split
  · rename_i hall
    rw [trimStart, List.isEmpty_iff.1 hall, List.dropWhile_cons_of_neg (by simp [hc]), List.nil_append]
  · rfl

theorem trimEnd_append : trimEnd (a ++ b) = if trimEnd b = [] then trimEnd a else a ++ trimEnd b := by
  simp only [trimEnd, List.rdropWhile, List.reverse_append, List.dropWhile_append, List.reverse_eq_nil_iff,
    List.isEmpty_iff]
  split
  · rfl
  · rw [List.reverse_append, List.reverse_reverse]

theorem trimEnd_isPrefix (a : Text) : trimEnd a <+: a := List.rdropWhile_prefix _ _

theorem trimEnd_eq_nil : trimEnd a = [] ↔ ∀ c ∈ a, isWhitespace c := List.rdropWhile_eq_nil_iff

theorem trimStart_subset (a : Text) : trimStart a ⊆ a := (List.dropWhile_sublist _).subset

theorem mem_trim {c : Char} (hmem : c ∈ a) (hc : isWhitespace c = false) : c ∈ trim a := by
  have hstart : c ∈ trimStart a := by
    rw [← List.takeWhile_append_dropWhile (p := isWhitespace) (l := a)] at hmem
    refine (List.mem_append.1 hmem).resolve_left fun h => ?_
    rw [List.mem_takeWhile_imp h] at hc
    cases hc
  rw [← List.rdropWhile_append_rtakeWhile (p := isWhitespace) (l := trimStart a)] at hstart
  refine (List.mem_append.1 hstart).resolve_right fun h => ?_
  rw [List.mem_rtakeWhile_imp h] at hc
  cases hc

theorem trim_trim (a : Text) : trim (trim a) = trim a := by
  have hstart : trimStart (trimEnd (trimStart a)) = trimEnd (trimStart a) := by
    cases h : trimEnd (trimStart a) with
    | nil => rfl
    | cons c r =>
      obtain ⟨w, hw⟩ := trimEnd_isPrefix (trimStart a)
      rw [h, List.cons_append] at hw
      refine List.dropWhile_cons_of_neg fun hc => ?_
      have hhead := List.head?_dropWhile_not isWhitespace a
      rw [show a.dropWhile isWhitespace = c :: (r ++ w) from hw.symm] at hhead
      simp [hc] at hhead
  rw [trim, trim, hstart, trimEnd, trimEnd, List.rdropWhile_idempotent]

/-- Of two divisions of a text, one before a brace: what has no brace lies in front of it. -/
theorem split_before_brace {l r : Text} (h : l ++ r = p ++ z) (hl : '{' ∉ l) (hz : z.head? = some '{') :
    ∃ p', p = l ++ p' ∧ r = p' ++ z := by
  obtain ⟨p', hp, hr⟩ | ⟨m, hlm, hzm⟩ := List.append_eq_append_iff.1 h
  · exact ⟨p', hp, hr⟩
  · cases m with
    | nil => exact ⟨[], by simpa using hlm.symm, by simpa using hzm.symm⟩
    | cons c m =>
      rw [hzm, List.cons_append, List.head?_cons] at hz
      rw [hlm, Option.some.inj hz] at hl
      simp at hl

end trim

/-! ## Out of any text -/

section text
variable {libs : Libs} {o p q s z : Text}

theorem trimEnd_object (ho : IsObject o) (s : Text) : ∃ s', trimEnd (o ++ s) = o ++ s' := by
  rw [trimEnd_append]
  split
  · obtain ⟨t, rfl, -, -⟩ := object_braces ho
    exact ⟨[], by rw [List.append_nil]; exact List.rdropWhile_concat_neg _ _ _ (by decide)⟩
  · exact ⟨_, rfl⟩

theorem tryExtractJsonObject_of_brace (hp : '{' ∉ p) (hz : z.head? = some '{') :
    tryExtractJsonObject libs (p ++ z) = extractFrom libs (trimEnd z) := by
  obtain ⟨z, rfl⟩ : ∃ z', z = '{' :: z' := by
    cases z with
    | nil => cases hz
    | cons x z => exact ⟨z, by rw [Option.some.inj hz]⟩
  have hne : trimEnd ('{' :: z) ≠ [] := fun h => absurd (trimEnd_eq_nil.1 h '{' List.mem_cons_self) (by decide)
  obtain ⟨r, hr⟩ : ∃ r, trimEnd ('{' :: z) = '{' :: r := by
    obtain ⟨c, r, hc⟩ := List.exists_cons_of_ne_nil hne
    obtain ⟨w, hw⟩ := trimEnd_isPrefix ('{' :: z)
    rw [hc, List.cons_append] at hw
    exact ⟨r, by rw [hc, (List.cons.inj hw).1]⟩
  have hstart : ∀ c ∈ trimStart p, ¬ (decide (c = '{') : Bool) := by
    intro c hc hbrace
    rw [of_decide_eq_true hbrace] at hc
    exact hp (trimStart_subset p hc)
  rw [tryExtractJsonObject, trim, trimStart_append hz (by decide), trimEnd_append, if_neg hne, hr]
  rw [findChar_of hstart (by decide)]
  dsimp only
  rw [sliceFrom_append]
  rfl

theorem tryExtractJsonObject_none (hs : '{' ∉ s) : ∃ e, tryExtractJsonObject libs s = .error (.err e) := by
  have hnone : findChar (· = '{') (trim s) = none := by
    cases h : findChar (· = '{') (trim s) with
    | none => rfl
    | some i =>
      obtain ⟨a, ch, b, hab, -, hch, -⟩ := findChar_eq_some h
      have hmem : ch ∈ trim s := by
        rw [hab]
        simp
      rw [of_decide_eq_true hch] at hmem
      exact absurd (trimStart_subset s ((trimEnd_isPrefix _).subset hmem)) hs
  exact ⟨_, by rw [tryExtractJsonObject, hnone]⟩

theorem tryExtractJsonObject_object (haccept : AcceptsJson libs) (ho : IsObject o) (hp : '{' ∉ p) (s : Text) :
    tryExtractJsonObject libs (p ++ (o ++ s)) = .ok o := by
  have hhead : (o ++ s).head? = some '{' := by rw [List.head?_append, ho.2]; rfl
  obtain ⟨s', hs'⟩ := trimEnd_object ho s
  rw [tryExtractJsonObject_of_brace hp hhead, hs']
  exact extractFrom_object haccept ho s'

theorem tryExtractJsonObject_cut (honly : OnlyJson libs) (ho : IsObject o) (hp : '{' ∉ p) (hcut : Cut q o) :
    ∃ e, tryExtractJsonObject libs (p ++ q) = .error (.err e) := by
  by_cases hq : q = []
  · subst hq
    rw [List.append_nil]
    exact tryExtractJsonObject_none hp
  · rw [tryExtractJsonObject_of_brace hp (hcut.head ho hq)]
    exact ⟨_, extractFrom_cut honly ho (hcut.trans_prefix (trimEnd_isPrefix q))⟩

/-! ## Fences in front of the object -/

/-- What is tried gives nothing, or the object. -/
def NothingBut (o : Text) (x : Except Failure (Option Text)) : Prop := x = .ok none ∨ x = .ok (some o)

/-- Out of any part from the start of a text in which nothing but the object starts with a brace. -/
theorem fence_attempt (haccept : AcceptsJson libs) (ho : IsObject o) (hp : '{' ∉ p) (hq : q <+: p ++ (o ++ s)) :
    NothingBut o (attempt (tryExtractJsonObject libs (trim q))) := by
  have htrim : tryExtractJsonObject libs (trim q) = tryExtractJsonObject libs q := by
    rw [tryExtractJsonObject, tryExtractJsonObject, trim_trim]
  have hnone : ∀ {x : Text}, (∃ e, tryExtractJsonObject libs x = .error (.err e)) →
      NothingBut o (attempt (tryExtractJsonObject libs x)) := by
    rintro x ⟨e, he⟩
    exact .inl (by rw [he]; rfl)
  rw [htrim]
  obtain ⟨r, hr⟩ := hq
  obtain ⟨p', rfl, -⟩ | ⟨m, rfl, hm⟩ := List.append_eq_append_iff.1 hr
  · exact hnone (tryExtractJsonObject_none fun h => hp (List.mem_append_left _ h))
  · obtain ⟨o', hmo, -⟩ | ⟨s', rfl, -⟩ := List.append_eq_append_iff.1 hm.symm
    · by_cases hall : m = o
      · right
        have hfound := tryExtractJsonObject_object haccept ho hp []
        rw [List.append_nil, ← hall] at hfound
        rw [hfound, hall]
        rfl
      · exact hnone (tryExtractJsonObject_cut haccept.only ho hp ⟨⟨o', hmo.symm⟩, hall⟩)
    · right
      rw [tryExtractJsonObject_object haccept ho hp s']
      rfl

theorem fenceContent_eq (rest : Text) : ∃ q, q <+: rest ∧ fenceContent rest = .ok (trim q) := by
  unfold fenceContent
  split
  · rename_i close hclose
    obtain ⟨a, b, rfl, rfl⟩ := find_eq_some hclose
    refine ⟨a, ⟨fence ++ b, (List.append_assoc _ _ _).symm⟩, ?_⟩
    rw [List.append_assoc, sliceTo_append]
    rfl
  · exact ⟨rest, List.prefix_rfl, rfl⟩

/-- What starts before the object, and is without a brace, lies before it. -/
theorem split_before {a m b : Text} (h : a ++ m ++ b = p ++ z) (ha : size a < size p) (hp : '{' ∉ p) (hm : '{' ∉ m)
    (hz : z.head? = some '{') : ∃ p', '{' ∉ p' ∧ b = p' ++ z := by
  have hbefore : '{' ∉ a := by
    rw [List.append_assoc] at h
    obtain ⟨p', rfl, -⟩ | ⟨a', rfl, -⟩ := List.append_eq_append_iff.1 h
    · exact fun hmem => hp (List.mem_append_left _ hmem)
    · rw [size_append] at ha
      omega
  obtain ⟨p', rfl, hb⟩ := split_before_brace h (by simp [hbefore, hm]) hz
  exact ⟨p', fun hmem => hp (List.mem_append_right _ hmem), hb⟩

theorem jsonFenced_before (haccept : AcceptsJson libs) (ho : IsObject o) (hp : '{' ∉ p) {i : ℕ}
    (hi : findCaseInsensitive (p ++ (o ++ s)) jsonFence = some i) (hbefore : i < size p) :
    NothingBut o (jsonFenced libs (p ++ (o ++ s))) := by
  have hhead : (o ++ s).head? = some '{' := by rw [List.head?_append, ho.2]; rfl
  obtain ⟨a, m, b, ht, rfl, hm, hbrace⟩ := findCaseInsensitive_jsonFence hi
  obtain ⟨p', hp', rfl⟩ := split_before ht.symm hbefore hp hbrace hhead
  obtain ⟨q, hq, hcontent⟩ := fenceContent_eq (trimStart (p' ++ (o ++ s)))
  rw [trimStart_append hhead (by decide)] at hq
  rw [jsonFenced, hi]
  dsimp only
  rw [← hm, ht, sliceFrom_after, ok_bind, hcontent, ok_bind]
  exact fence_attempt haccept ho (fun hmem => hp' (trimStart_subset p' hmem)) hq

theorem skipLanguage_before (hlower : KeepsBrace libs) (hp : '{' ∉ p) (hz : z.head? = some '{') :
    ∃ p', '{' ∉ p' ∧ skipLanguage libs (p ++ z) = .ok (p' ++ z) := by
  unfold skipLanguage
  split
  · exact ⟨p, hp, rfl⟩
  split
  · exact ⟨p, hp, rfl⟩
  · rename_i nl hnl
    obtain ⟨l, ch, r, hlr, rfl, hch, -⟩ := findChar_eq_some hnl
    obtain rfl : ch = '\n' := of_decide_eq_true hch
    rw [hlr, sliceTo_append, ok_bind]
    dsimp only
    split
    · rename_i htag
      -- a language line has no brace, so that it ends before the object
      have hline : '{' ∉ l := by
        intro hmem
        have hkept := hlower _ (mem_trim hmem (by decide))
        rcases htag with htag | htag <;> rw [htag] at hkept <;> exact absurd hkept (by decide)
      have hsplit : (l ++ ['\n']) ++ r = p ++ z := by rw [← List.append_cons, hlr]
      obtain ⟨p', rfl, rfl⟩ := split_before_brace hsplit (by simp [hline]) hz
      refine ⟨trimStart p', fun hmem => hp (List.mem_append_right _ (trimStart_subset p' hmem)), ?_⟩
      have hslice := sliceFrom_after l ['\n'] (p' ++ z)
      rw [← List.append_cons] at hslice
      rw [show size l + 1 = size l + size ['\n'] from rfl, hslice]
      exact congrArg Except.ok (trimStart_append hz (by decide) p')
    · exact ⟨p, hp, by rw [← hlr]; rfl⟩

theorem plainFenced_before (haccept : AcceptsJson libs) (hlower : KeepsBrace libs) (ho : IsObject o) (hp : '{' ∉ p)
    {i : ℕ} (hi : find fence (p ++ (o ++ s)) = some i) (hbefore : i < size p) :
    NothingBut o (plainFenced libs (p ++ (o ++ s))) := by
  have hhead : (o ++ s).head? = some '{' := by rw [List.head?_append, ho.2]; rfl
  obtain ⟨a, b, ht, rfl⟩ := find_eq_some hi
  obtain ⟨p', hp', rfl⟩ := split_before ht.symm hbefore hp (by decide) hhead
  obtain ⟨p'', hp'', hskip⟩ := skipLanguage_before hlower (fun hmem => hp' (trimStart_subset p' hmem)) hhead
  obtain ⟨q, hq, hcontent⟩ := fenceContent_eq (p'' ++ (o ++ s))
  rw [plainFenced, hi]
  dsimp only
  rw [ht, show (3 : ℕ) = size fence from rfl, sliceFrom_after, ok_bind, trimStart_append hhead (by decide), hskip,
    ok_bind, hcontent, ok_bind]
  split
  · exact fence_attempt haccept ho hp'' hq
  · exact .inl rfl

/-! ## The object -/

/-- The first fence of either kind, where the text has one, opens before the offset, or nothing comes out of it. -/
structure FencesBefore (libs : Libs) (t : Text) (n : ℕ) : Prop where
  json : ∀ i, findCaseInsensitive t jsonFence = some i → i < n ∨ jsonFenced libs t = .ok none
  plain : ∀ i, find fence t = some i → i < n ∨ plainFenced libs t = .ok none

/-- **The object** is what is extracted, whatever it contains and whatever stands around it, where no fence that opens
in it or after it has an object to be preferred. -/
theorem extractJsonBlock_object (haccept : AcceptsJson libs) (hlower : KeepsBrace libs) (ho : IsObject o) (hp : '{' ∉ p)
    (s : Text) (hfences : FencesBefore libs (trim (p ++ o ++ s)) (size (trimStart p))) :
    extractJsonBlock libs (p ++ o ++ s) = .ok o := by
  have hhead : (o ++ s).head? = some '{' := by rw [List.head?_append, ho.2]; rfl
  have htrim : ∃ s', trim (p ++ o ++ s) = trimStart p ++ (o ++ s') := by
    obtain ⟨s', hs'⟩ := trimEnd_object ho s
    have hne : trimEnd (o ++ s) ≠ [] := by
      obtain ⟨t, rfl, -, -⟩ := object_braces ho
      rw [hs']
      simp
    exact ⟨s', by rw [List.append_assoc, trim, trimStart_append hhead (by decide), trimEnd_append, if_neg hne, hs']⟩
  have hp' : '{' ∉ trimStart p := fun hmem => hp (trimStart_subset p hmem)
  obtain ⟨s', htrim⟩ := htrim
  rw [htrim] at hfences
  have hjson : NothingBut o (jsonFenced libs (trimStart p ++ (o ++ s'))) := by
    cases hi : findCaseInsensitive (trimStart p ++ (o ++ s')) jsonFence with
    | none => exact .inl (by rw [jsonFenced, hi])
    | some i => exact (hfences.json i hi).elim (jsonFenced_before haccept ho hp' hi) .inl
  have hplain : NothingBut o (plainFenced libs (trimStart p ++ (o ++ s'))) := by
    cases hi : find fence (trimStart p ++ (o ++ s')) with
    | none => exact .inl (by rw [plainFenced, hi])
    | some i => exact (hfences.plain i hi).elim (plainFenced_before haccept hlower ho hp' hi) .inl
  rw [extractJsonBlock, htrim]
  obtain hjson | hjson := hjson
  · rw [hjson, ok_bind]
    dsimp only
    obtain hplain | hplain := hplain
    · rw [hplain, ok_bind]
      exact tryExtractJsonObject_object haccept ho hp' s'
    · rw [hplain]
      rfl
  · rw [hjson]
    rfl

end text

/-! ## A fence in a string -/

def empty : Text := "\x7b\x7d".toList

def one : Text := "\x7b\"a\":1\x7d".toList

def stringFence : Text := "\x7b\"a\":\"```\x7b\x7d\"\x7d".toList

open Classical in
/-- The acceptance of the grammar, with the values of the texts in the table. -/
noncomputable def tableLibs (table : List (Text × Json)) (toJsonText : Json → Text) : Libs where
  fromStr s :=
    match table.lookup s with
    | some v => .ok v
    | none => if IsText s then .ok .null else .error "expected value"
  toJsonText := toJsonText
  toLowercase s := s.map Char.toLower

theorem acceptsJson_tableLibs {table : List (Text × Json)} (h : ∀ row ∈ table, IsText row.1)
    (toJsonText : Json → Text) : AcceptsJson (tableLibs table toJsonText) := by
  intro s
  unfold tableLibs
  dsimp only
  split
  · rename_i v hv
    obtain ⟨l, l', rfl, -⟩ := List.lookup_eq_some_iff.1 hv
    exact ⟨fun _ => h (s, v) (by simp), fun _ => rfl⟩
  split
  · rename_i htext
    exact ⟨fun _ => htext, fun _ => rfl⟩
  · rename_i htext
    exact ⟨nofun, fun h => absurd h htext⟩

theorem fromStr_tableLibs {table : List (Text × Json)} {s : Text} {v : Json} (h : table.lookup s = some v)
    (toJsonText : Json → Text) : (tableLibs table toJsonText).fromStr s = .ok v := by
  unfold tableLibs
  dsimp only
  rw [h]

theorem keepsBrace_tableLibs (table : List (Text × Json)) (toJsonText : Json → Text) :
    KeepsBrace (tableLibs table toJsonText) := fun _ h => List.mem_map.2 ⟨'{', h, by decide⟩

noncomputable def grammarLibs : Libs := tableLibs [(one, .obj [("a", .int 1)]), (empty, .obj [])] fun _ => []

theorem isObject_empty : IsObject empty := ⟨.emptyObject (fun _ h => absurd h List.not_mem_nil), rfl⟩

theorem isObject_one : IsObject one := by
  have hspaces : Spaces [] := fun _ h => absurd h List.not_mem_nil
  have hnumber : IsNumber ['1'] :=
    ⟨[], ['1'], [], [], by simp, .inr ⟨⟨by simp, List.all_eq_true.1 (by decide)⟩, by decide⟩, .inl rfl, .inl rfl, rfl⟩
  have hkey : IsString ['"', 'a', '"'] := ⟨['a'], .plain (by decide) (by decide) (by decide) .nil, rfl⟩
  exact ⟨.object (.lastMember (.member hspaces hkey hspaces (.element hspaces (.number hnumber) hspaces))), rfl⟩

theorem acceptsJson_grammarLibs : AcceptsJson grammarLibs :=
  acceptsJson_tableLibs (by simp [isObject_one.isText, isObject_empty.isText]) _

theorem extractJsonBlock_object_fenced :
    extractJsonBlock grammarLibs ("Here:\n```json\n".toList ++ one ++ "\n```".toList) =
      .ok one := by
  refine extractJsonBlock_object acceptsJson_grammarLibs (keepsBrace_tableLibs _ _) isObject_one (by decide) _ ⟨?_, ?_⟩
  · intro i hi
    have hsome : findCaseInsensitive (trim ("Here:\n```json\n".toList ++ one ++ "\n```".toList))
        jsonFence = some 6 := by decide +kernel
    rw [hsome] at hi
    exact .inl (Option.some.inj hi ▸ by decide)
  · intro i hi
    have hsome : find fence (trim ("Here:\n```json\n".toList ++ one ++ "\n```".toList)) = some 6 := by
      decide +kernel
    rw [hsome] at hi
    exact .inl (Option.some.inj hi ▸ by decide)

theorem isObject_stringFence : IsObject stringFence := by
  have hspaces : Spaces [] := fun _ h => absurd h List.not_mem_nil
  have hkey : IsString ['"', 'a', '"'] := ⟨['a'], .plain (by decide) (by decide) (by decide) .nil, rfl⟩
  have hbody : Body "```\x7b\x7d".toList := by
    iterate 5 refine .plain (by decide) (by decide) (by decide) ?_
    exact .nil
  have hvalue : IsString ('"' :: "```\x7b\x7d".toList ++ ['"']) := ⟨_, hbody, rfl⟩
  exact ⟨.object (.lastMember (.member hspaces hkey hspaces (.element hspaces (.string hvalue) hspaces))), rfl⟩

theorem extractJsonBlock_empty {t b : Text} (hjson : jsonFenced grammarLibs (trim t) = .ok none)
    (hplain : plainFenced grammarLibs (trim t) = attempt (extractFrom grammarLibs (empty ++ b))) :
    extractJsonBlock grammarLibs t = .ok empty := by
  rw [extractJsonBlock, hjson, ok_bind]
  dsimp only
  rw [hplain, extractFrom_object acceptsJson_grammarLibs isObject_empty]
  rfl

/-- Behind an object the one in a fence comes out, and of an object with a fence in its string what stands there. -/
theorem fences_preferred : AcceptsJson grammarLibs ∧ IsObject one ∧ IsObject stringFence ∧
    extractJsonBlock grammarLibs (one ++ "\n```\n\x7b\x7d\n```".toList) = .ok empty ∧
      extractJsonBlock grammarLibs stringFence = .ok empty := by
  refine ⟨acceptsJson_grammarLibs, isObject_one, isObject_stringFence, ?_, ?_⟩
  · exact extractJsonBlock_empty (b := []) rfl rfl
  · exact extractJsonBlock_empty (b := "\"\x7d".toList) rfl rfl

end Qtss.Ai.Parser
