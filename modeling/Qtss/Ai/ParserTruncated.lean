import Qtss.Ai.ParserObject
import Qtss.Lib.Fallible
/-
# Replies that break off

Out of a part of an object nothing is extracted, fences in its strings apart (`extractJsonBlock_cut`), and its fields are
looked for one by one: each under the first occurrence of its name in quotes, a number up to white space, a comma, a brace
or the end of the text (parser.rs:195). A field found so is the same in the whole object (`stringField_append`,
`numberField_append`), unless the reply breaks off in a number: the digits that are there are then taken for all of it
(`cut_confidence`). The numbers that are found are read by `parse::<f64>`, written, and read again by `from_str`, which
may round them otherwise (`reread`). `parseTactical_truncated_iff` says what it takes for the decision to be the same.
-/

namespace Qtss.Ai.Parser
open Utf8 JsonText Fallible
open Execution.Dry (isWhitespace)

/-! ## Escapes in a part of an object -/

inductive Lex where
  | out | inside | escaped
deriving DecidableEq

/-- None where no JSON text goes on. -/
def lex : Lex → Char → Option Lex
  | .out, c => if c = '"' then some .inside else if c = '\\' then none else some .out
  | .inside, c => if c = '"' then some .out else if c = '\\' then some .escaped else some .inside
  | .escaped, c => if IsAscii c then some .inside else none

theorem reader_lex : Reader lex (fun _ => .out) (fun _ => .inside) fun _ => .escaped where
  plain d c hc := by
    simp only [List.mem_cons, List.not_mem_nil, or_false, not_or] at hc
    simp [lex, hc.1, hc.2.1]
  opens d := rfl
  closes d := rfl
  quote d := rfl
  text d c hquote hslash := by simp [lex, hquote, hslash]
  backslash d := rfl
  escape d c hc := by
    have hascii : ∀ c ∈ ['"', '\\', '/', 'b', 'f', 'n', 'r', 't', 'u'], IsAscii c :=
      List.all_iff_forall_prop.1 (by decide)
    rw [lex, if_pos (hascii c hc)]
  unquote d := rfl

section lex
variable {o p s key : Text} {m : Lex}

theorem lex_prefix (ho : IsObject o) (hp : p <+: o) : ∃ m, p.foldlM lex .out = some m := by
  obtain ⟨q, rfl⟩ := hp
  have hrun := ho.1.run reader_lex 0
  rw [List.foldlM_append] at hrun
  obtain ⟨m, hm, -⟩ := Option.bind_eq_some_iff.1 hrun
  exact ⟨m, hm⟩

theorem lex_ne_escaped {x : Text} {c : Char} (h : (x ++ [c]).foldlM lex .out = some m) (hc : c ≠ '\\') :
    m ≠ .escaped := by
  rw [List.foldlM_append] at h
  obtain ⟨m', -, hstep⟩ := Option.bind_eq_some_iff.1 h
  rw [List.foldlM_cons] at hstep
  obtain ⟨m'', hm'', hend⟩ := Option.bind_eq_some_iff.1 hstep
  obtain rfl := Option.some.inj hend
  rintro rfl
  cases m' <;> simp only [lex, if_neg hc] at hm'' <;> split at hm'' <;> cases hm''

/-- From inside a string or from outside of one. -/
theorem not_escapesWide_of_lex (hm : m ≠ .escaped) (h : (s.foldlM lex m).isSome) : escapesWide s = false := by
  induction s using escapesWide.induct generalizing m with
  | case1 c rest ih =>
    cases m with
    | escaped => exact absurd rfl hm
    | out => exact absurd h (by simp [List.foldlM_cons, lex])
    | inside =>
      rw [foldlM_cons_of (show lex .inside '\\' = some .escaped from rfl)] at h
      rw [escapesWide]
      by_cases hc : IsAscii c
      · rw [foldlM_cons_of (show lex .escaped c = some .inside from if_pos hc)] at h
        simp [hc, ih (show Lex.inside ≠ .escaped by decide) h]
      · exact absurd h (by simp [List.foldlM_cons, lex, hc])
  | case2 rest => rfl
  | case3 c rest hslash hquote ih =>
    rw [escapesWide.eq_3 _ _ hslash hquote]
    by_cases hc : c = '\\'
    · cases rest with
      | nil => rfl
      | cons c' rest => exact absurd rfl (hslash c' rest hc)
    · have hstep : lex m c = some m := by
        cases m with
        | escaped => exact absurd rfl hm
        | out => simp [lex, hc, show c ≠ '"' from fun h => hquote h]
        | inside => simp [lex, hc, show c ≠ '"' from fun h => hquote h]
      rw [foldlM_cons_of hstep] at h
      exact ih hm h
  | case4 => rfl

theorem trimStart_split (b : Text) : ∃ w, b = w ++ trimStart b ∧ ∀ c ∈ w, isWhitespace c :=
  ⟨b.takeWhile isWhitespace, List.takeWhile_append_dropWhile.symm, fun _ => List.mem_takeWhile_imp⟩

/-- **No part of an object** has a backslash before a character of more than one byte where a field is looked for. -/
theorem not_escapesAt (ho : IsObject o) (hp : p <+: o) (key : Text) : ¬ EscapesAt p key := by
  rintro ⟨s, hs, hwide⟩
  obtain hnone | ⟨a, b, r, rfl, -, hcolon, hsome⟩ := fieldValue_cases p key
  · rw [hnone] at hs
    cases hs
  rw [hsome] at hs
  have hquote : trimStart r = '"' :: s := Option.some.inj (Except.ok.inj hs)
  obtain ⟨w₁, hb, -⟩ := trimStart_split b
  obtain ⟨w₂, hr, hspace⟩ := trimStart_split r
  -- the quote is behind the colon or white space, so that it is not escaped
  obtain ⟨x, c, hlast⟩ : ∃ x c, ':' :: w₂ = x ++ [c] :=
    ⟨_, _, (List.dropLast_append_getLast (List.cons_ne_nil ':' w₂)).symm⟩
  have hc : c ≠ '\\' := by
    have hmem : c ∈ ':' :: w₂ := by
      rw [hlast]
      simp
    obtain rfl | hmem := List.mem_cons.1 hmem
    · decide
    · rintro rfl
      exact absurd (hspace _ hmem) (by decide)
  have hsplit : a ++ ('"' :: key ++ ['"']) ++ b = (a ++ ('"' :: key ++ ['"']) ++ w₁ ++ x ++ [c]) ++ '"' :: s := by
    rw [hb, hcolon, hr, hquote, ← List.cons_append, hlast]
    simp only [List.append_assoc]
  obtain ⟨m, hm⟩ := lex_prefix ho hp
  rw [hsplit, List.foldlM_append] at hm
  obtain ⟨m', hm', hrest⟩ := Option.bind_eq_some_iff.1 hm
  have hne := lex_ne_escaped hm' hc
  rw [List.foldlM_cons] at hrest
  obtain ⟨m'', hm'', hrest⟩ := Option.bind_eq_some_iff.1 hrest
  have hne' : m'' ≠ .escaped := by
    cases m' with
    | escaped => exact absurd rfl hne
    | out => cases hm''; exact nofun
    | inside => cases hm''; exact nofun
  rw [not_escapesWide_of_lex hne' (by rw [hrest]; rfl)] at hwide
  cases hwide

end lex

/-! ## Fields of a longer text -/

section longer
variable {p q s d key : Text}

theorem fieldValue_append (h : fieldValue p key = .ok (some s)) (hs : s ≠ []) (q : Text) :
    fieldValue (p ++ q) key = .ok (some (s ++ q)) := by
  obtain hnone | ⟨a, b, r, hp, hfind, hcolon, hsome⟩ := fieldValue_cases p key
  · rw [hnone] at h
    cases h
  rw [hsome] at h
  obtain rfl := Option.some.inj (Except.ok.inj h)
  have happend : ∀ x : Text, trimStart x ≠ [] → trimStart (x ++ q) = trimStart x ++ q := by
    intro x hx
    have hne : ¬ (x.dropWhile isWhitespace).isEmpty = true := fun h => hx (List.isEmpty_iff.1 h)
    rw [trimStart, List.dropWhile_append, if_neg hne]
    rfl
  rw [← happend r hs]
  refine fieldValue_of_find (a := a) (b := b ++ q) ?_ (find_append hfind q) ?_
  · rw [hp, List.append_assoc]
  · rw [happend b (by rw [hcolon]; exact List.cons_ne_nil _ _), hcolon]
    rfl

theorem quoted_append (h : quoted s = some d) (q : Text) :
    quoted (s ++ q) = some d ∧ escapesWide (s ++ q) = escapesWide s := by
  induction s using quoted.induct generalizing d with
  | case1 c rest ih =>
    rw [quoted] at h
    obtain ⟨d, hd, rfl⟩ := Option.map_eq_some_iff.1 h
    obtain ⟨hquoted, hescapes⟩ := ih hd
    rw [List.cons_append, List.cons_append, quoted, hquoted, escapesWide, hescapes, escapesWide]
    exact ⟨rfl, rfl⟩
  | case2 rest =>
    rw [quoted] at h
    exact ⟨h, rfl⟩
  | case3 c rest hslash hquote ih =>
    have hc : c ≠ '\\' := by
      rintro rfl
      cases rest with
      | nil => cases h
      | cons c rest => exact hslash c rest rfl rfl
    rw [quoted.eq_3 _ _ hslash hquote] at h
    obtain ⟨d, hd, rfl⟩ := Option.map_eq_some_iff.1 h
    obtain ⟨hquoted, hescapes⟩ := ih hd
    have hslash' : ∀ c' rest', c = '\\' → rest ++ q = c' :: rest' → False := fun _ _ h _ => hc h
    rw [List.cons_append, quoted.eq_3 _ _ hslash' hquote, hquoted, escapesWide.eq_3 _ _ hslash' hquote, hescapes,
      escapesWide.eq_3 _ _ hslash hquote]
    exact ⟨rfl, rfl⟩
  | case4 => cases h

/-- **A string** that is closed. -/
theorem stringField_append (h : stringField p key = .ok (some d)) (q : Text) :
    stringField (p ++ q) key = .ok (some d) := by
  obtain ⟨s, hs⟩ | ⟨-, hnone⟩ := stringField_cases p key
  · have hvalue := fieldValue_append hs (List.cons_ne_nil _ _) q
    rw [List.cons_append] at hvalue
    rw [stringField_of_quote hs] at h
    split at h
    · cases h
    · rename_i hescapes
      obtain ⟨hquoted, hsame⟩ := quoted_append (Except.ok.inj h) q
      rw [stringField_of_quote hvalue, hsame, if_neg hescapes, hquoted]
  · rw [hnone] at h
    cases h

/-- The text breaks off in a number, which goes on in the longer one. -/
def CutAt (p o key : Text) : Prop :=
  ∃ s c rest, fieldValue p key = .ok (some s) ∧ numberText s = s ∧ o = p ++ c :: rest ∧ endsNumber c = false

/-- **A number** that is not cut. -/
theorem numberField_append {x : ℚ} (h : numberField p key = .ok (some x)) (hcut : ¬ CutAt p (p ++ q) key) :
    numberField (p ++ q) key = .ok (some x) := by
  obtain hnone | ⟨a, b, r, -, -, -, hsome⟩ := fieldValue_cases p key
  · rw [numberField, hnone] at h
    cases h
  generalize trimStart r = s at hsome
  rw [numberField_of_value hsome] at h
  have hne : numberText s ≠ [] := by
    intro hnil
    rw [if_pos hnil] at h
    cases h
  rw [if_neg hne] at h
  have hs : s ≠ [] := by
    rintro rfl
    exact hne rfl
  have htext : numberText (s ++ q) = numberText s := by
    by_cases hall : numberText s = s
    · cases q with
      | nil => rw [List.append_nil]
      | cons c q =>
        have hends : endsNumber c = true := by
          by_contra hends
          exact hcut ⟨s, c, q, hsome, hall, rfl, by simpa using hends⟩
        have hthrough := List.takeWhile_eq_self_iff.1 hall
        rw [hall, numberText, List.takeWhile_append_of_pos hthrough, List.takeWhile_cons_of_neg (by simp [hends]),
          List.append_nil]
    · rw [numberText, List.takeWhile_append, if_neg]
      · rfl
      · intro hlength
        exact hall (List.takeWhile_prefix _ |>.eq_of_length hlength)
  rw [numberField_of_value (fieldValue_append hsome hs q), htext, if_neg hne]
  exact h

end longer

/-! ## What a value gives for a decision -/

section tactical
variable {libs : Libs} {v r : Json}

def IsObj (v : Json) : Prop := ∃ fields, v = .obj fields

theorem isObj_withField (h : IsObj v) (key : String) (x : Option Json) : IsObj (withField v key x) := by
  obtain ⟨fields, rfl⟩ := h
  cases x with
  | none => exact ⟨fields, rfl⟩
  | some x => exact ⟨_, rfl⟩

theorem get_withField (h : IsObj v) (key : String) (x : Option Json) :
    (withField v key x).get key = x.or (v.get key) := by
  obtain ⟨fields, rfl⟩ := h
  cases x with
  | none => rfl
  | some x => simp [withField, Json.set, Json.get]

theorem get_withField_ne {key j : String} (h : j ≠ key) (x : Option Json) : (withField v key x).get j = v.get j := by
  cases x with
  | none => rfl
  | some x => exact get_set_ne h

theorem requireDirection_ok {dir : Text} (h : requireDirection libs v = .ok dir) : ∃ d,
    (v.get "direction").bind Json.asStr = some (String.ofList d) ∧ normalize libs d ∈ tacticalDirections ∧
      dir = normalize libs d := by
  unfold requireDirection requireWord at h
  split at h
  · cases h
  rename_i d hd
  dsimp only at h
  split at h
  · rename_i hword
    exact ⟨d.toList, by rw [hd, String.ofList_toList], hword, (Except.ok.inj h).symm⟩
  · cases h

theorem requireConfidence_ok {c : ℚ} (h : requireConfidence v = .ok c) :
    (v.get "confidence").bind asF64 = some c ∧ 0 ≤ c ∧ c ≤ 1 := by
  unfold requireConfidence at h
  split at h
  · cases h
  rename_i c' hconf
  split at h
  · cases h
  · rename_i hunit
    obtain rfl := Except.ok.inj h
    exact ⟨hconf, not_not.1 hunit⟩

theorem clampMultiplier_ok (h : clampMultiplier v = .ok ()) {m : ℚ} (hm : multiplier v = some m) : 0 ≤ m ∧ m ≤ 2 := by
  by_contra hrange
  unfold clampMultiplier at h
  rw [hm] at h
  exact absurd ((if_pos hrange).symm.trans h) nofun

/-- The fields that are checked. -/
structure Acceptable (libs : Libs) (v : Json) (d : Text) (c : ℚ) : Prop where
  direction : (v.get "direction").bind Json.asStr = some (String.ofList d)
  word : normalize libs d ∈ tacticalDirections
  confidence : (v.get "confidence").bind asF64 = some c
  range : 0 ≤ c ∧ c ≤ 1
  clamp : ∀ m, multiplier v = some m → 0 ≤ m ∧ m ≤ 2

/-- The fields of an accepted decision. -/
structure Decides (libs : Libs) (v r : Json) (d : Text) (c : ℚ) : Prop extends Acceptable libs v d c where
  getDirection : r.get "direction" = some (.str (String.ofList (normalize libs d)))
  getConfidence : r.get "confidence" = some (.float c)
  getMultiplier : r.get "position_size_multiplier" = some (.float ((multiplier v).getD 1))
  getStop : r.get "stop_loss_pct" = floatField v "stop_loss_pct"
  getTake : r.get "take_profit_pct" = floatField v "take_profit_pct"

theorem decides_of_ok (h : tacticalOf libs v = .ok r) : ∃ d c, Decides libs v r d c := by
  simp only [tacticalOf, bind_eq_ok] at h
  obtain ⟨dir, hdir, c, hconf, _, hclamp, h⟩ := h
  obtain ⟨d, hd, hword, rfl⟩ := requireDirection_ok hdir
  obtain ⟨hc, hrange⟩ := requireConfidence_ok hconf
  have hobj : IsObj (.obj [("direction", .str (String.ofList (normalize libs d))), ("confidence", .float c),
    ("position_size_multiplier", .float ((multiplier v).getD 1))]) := ⟨_, rfl⟩
  obtain rfl := Except.ok.inj h
  refine ⟨d, c, ⟨hd, hword, hc, hrange, fun m => clampMultiplier_ok hclamp⟩, ?_, ?_, ?_, ?_, ?_⟩
  · simp (disch := decide) only [get_withField_ne]
    rfl
  · simp (disch := decide) only [get_withField_ne]
    rfl
  · simp (disch := decide) only [get_withField_ne]
    rfl
  · simp (disch := decide) only [get_withField_ne, get_withField (isObj_withField hobj _ _)]
    exact Option.or_none
  · simp (disch := decide) only [get_withField_ne,
      get_withField (isObj_withField (isObj_withField hobj _ _) _ _)]
    exact Option.or_none

section salvaged
variable (libs) (d : Text) (c : ℚ) (stop take mult hint : Option ℚ) (reasoning : Option Text)

theorem get_salvaged :
    (salvaged libs d c stop take mult hint reasoning).get "direction" = some (.str (String.ofList (normalize libs d))) ∧
    (salvaged libs d c stop take mult hint reasoning).get "confidence" = some (.float c) ∧
    (salvaged libs d c stop take mult hint reasoning).get "stop_loss_pct" = stop.map .float ∧
    (salvaged libs d c stop take mult hint reasoning).get "take_profit_pct" = take.map .float ∧
    (salvaged libs d c stop take mult hint reasoning).get "position_size_multiplier" = mult.map .float := by
  have hobj : IsObj (.obj [("direction", .str (String.ofList (normalize libs d))), ("confidence", .float c)]) := ⟨_, rfl⟩
  have hobj₁ := isObj_withField hobj "stop_loss_pct" (stop.map .float)
  have hobj₂ := isObj_withField hobj₁ "take_profit_pct" (take.map .float)
  unfold salvaged
  refine ⟨?_, ?_, ?_, ?_, ?_⟩
  · simp (disch := decide) only [get_withField_ne]
    rfl
  · simp (disch := decide) only [get_withField_ne]
    rfl
  · simp (disch := decide) only [get_withField_ne, get_withField hobj]
    exact Option.or_none
  · simp (disch := decide) only [get_withField_ne, get_withField hobj₁]
    exact Option.or_none
  · simp (disch := decide) only [get_withField_ne, get_withField hobj₂]
    exact Option.or_none

end salvaged

end tactical

/-! ## What is extracted -/

theorem isOk_of_safe {α : Type} {x : Except Failure α} (herr : ∀ e, x ≠ .error (.err e)) (hsafe : Safe x) :
    ∃ v, x = .ok v := by
  cases x with
  | ok v => exact ⟨v, rfl⟩
  | error failure =>
    cases failure with
    | err e => exact absurd rfl (herr e)
    | panic => exact absurd rfl hsafe

/-! ## Replies that break off -/

section truncated
variable {libs : Libs} {o p : Text} {v r : Json}

/-- No fence gives an object. -/
def Unfenced (libs : Libs) (raw : Text) : Prop :=
  jsonFenced libs (trim raw) = .ok none ∧ plainFenced libs (trim raw) = .ok none

theorem extractJsonBlock_unfenced (h : Unfenced libs p) : extractJsonBlock libs p = tryExtractJsonObject libs p := by
  have htrim : tryExtractJsonObject libs (trim p) = tryExtractJsonObject libs p := by
    rw [tryExtractJsonObject, tryExtractJsonObject, trim_trim]
  rw [extractJsonBlock, h.1, ok_bind]
  dsimp only
  rw [h.2, ok_bind]
  exact htrim

theorem extractJsonBlock_cut (honly : OnlyJson libs) (ho : IsObject o) (hcut : Cut p o) (h : Unfenced libs p) :
    ∃ e, extractJsonBlock libs p = .error (.err e) := by
  rw [extractJsonBlock_unfenced h]
  exact tryExtractJsonObject_cut honly ho List.not_mem_nil hcut

theorem extractJsonBlock_whole (haccept : AcceptsJson libs) (ho : IsObject o) (h : Unfenced libs o) :
    extractJsonBlock libs o = .ok o := by
  have hobject := tryExtractJsonObject_object haccept ho (p := []) List.not_mem_nil []
  rw [List.append_nil, List.nil_append] at hobject
  rw [extractJsonBlock_unfenced h, hobject]

theorem parseTacticalDecision_of_text {s : Text} (h : tacticalText libs p = .ok s) :
    parseTacticalDecision libs p = fromText libs s >>= tacticalOf libs := by
  rw [parseTacticalDecision, h, ok_bind]

theorem tacticalText_extracted {s : Text} (h : extractJsonBlock libs p = .ok s) : tacticalText libs p = .ok s := by
  rw [tacticalText, h]

def tradedNumbers : List String := ["confidence", "stop_loss_pct", "take_profit_pct", "position_size_multiplier"]

def numberNames : List String := tradedNumbers ++ ["entry_price_hint"]

/-- The same decision, but for numbers that are not there. -/
structure Agrees (r' r : Json) : Prop where
  direction : r'.get "direction" = r.get "direction"
  confidence : r'.get "confidence" = r.get "confidence"
  stop : r'.get "stop_loss_pct" = r.get "stop_loss_pct" ∨ r'.get "stop_loss_pct" = none
  take : r'.get "take_profit_pct" = r.get "take_profit_pct" ∨ r'.get "take_profit_pct" = none
  multiplier : r'.get "position_size_multiplier" = r.get "position_size_multiplier" ∨
    r'.get "position_size_multiplier" = some (.float 1)

/-- A number that breaks off is one of those that the salvage goes by. -/
def TakesCut (libs : Libs) (o p : Text) : Prop :=
  (¬ ∃ s, extractJsonBlock libs p = .ok s) ∧
    ∃ name ∈ numberNames, (∃ x, numberField p name.toList = .ok (some x)) ∧ CutAt p o name.toList

def TruncationSafe (libs : Libs) (o p : Text) (r : Json) : Prop :=
  (∃ e, parseTacticalDecision libs p = .error (.err e)) ∨
    ∃ r', parseTacticalDecision libs p = .ok r' ∧ Agrees r' r ∧ ¬ TakesCut libs o p

/-- What `from_str` makes of a number as `to_string` writes it. -/
def reread (libs : Libs) (x : ℚ) : Option ℚ :=
  match libs.fromStr (libs.toJsonText (.float x)) with
  | .ok v => asF64 v
  | .error _ => none

/-- The number is what the object has; 1 for the multiplier counts as none. -/
def OwnNumber (v : Json) (name : String) (x : ℚ) : Prop :=
  (v.get name).bind asF64 = some x ∨ name = "position_size_multiplier" ∧ x = 1

/-- The first direction of the object, where it is a direction, is the one that the object has. -/
def OwnDirection (libs : Libs) (o : Text) (v : Json) : Prop :=
  ∀ d, stringField o "direction".toList = .ok (some d) →
    ∃ dv, (v.get "direction").bind Json.asStr = some (String.ofList dv) ∧ normalize libs dv = normalize libs d

/-- The salvage finds a direction and a confidence, and what it writes can be read and is accepted. -/
structure Recovers (libs : Libs) (p d : Text) (c : ℚ) : Prop extends Accepts libs p d c where
  isRead : ∀ v, salvageMap libs p = .ok (some v) → (libs.fromStr (libs.toJsonText v)).isOk
  unit : ∃ y, reread libs c = some y ∧ 0 ≤ y ∧ y ≤ 1
  clamp : ∀ x y, numberField p "position_size_multiplier".toList = .ok (some x) → reread libs x = some y → 0 ≤ y ∧ y ≤ 2

/-- What the decision out of the part `p` of `o` is read from is what `o` has: the object that a fence in a string gives,
or each field that the salvage goes by, which is found under the first occurrence of its name and is not cut. -/
structure ReadsWhole (libs : Libs) (o p : Text) : Prop where
  extracted : ∀ s v d c, extractJsonBlock libs p = .ok s → libs.fromStr s = .ok v → Acceptable libs v d c →
    tacticalText libs o = .ok s
  salvaged : (¬ ∃ s, extractJsonBlock libs p = .ok s) → (∃ d c, Recovers libs p d c) →
    ∃ s v, tacticalText libs o = .ok s ∧ libs.fromStr s = .ok v ∧ OwnDirection libs o v ∧
      (∀ name ∈ numberNames, numberField p name.toList = .ok none ∨ ¬ CutAt p o name.toList) ∧
        ∀ name ∈ tradedNumbers, numberField p name.toList = .ok none ∨
          ∀ x y, numberField o name.toList = .ok (some x) → reread libs x = some y → OwnNumber v name y

/-- The words of a direction are in lower case. -/
def KeepsWords (libs : Libs) : Prop := ∀ w ∈ tacticalDirections, libs.toLowercase w = w

theorem normalize_normalize (hwords : KeepsWords libs) {d : Text} (h : normalize libs d ∈ tacticalDirections) :
    normalize libs (normalize libs d) = normalize libs d := by
  have hfix : ∀ w ∈ tacticalDirections, trim w = w ∧ (w.map fun c => if c = ' ' then '_' else c) = w := by decide
  obtain ⟨htrim, hmap⟩ := hfix _ h
  conv_lhs => rw [normalize]
  rw [htrim, hwords _ h, hmap]

/-- A number that is read in the part and not cut is the one that stands first in the object. -/
theorem ownNumber_part {name : String} {x : Option ℚ} (hp : p <+: o) (hx : numberField p name.toList = .ok x)
    (hcut : numberField p name.toList = .ok none ∨ ¬ CutAt p o name.toList) :
    (numberField p name.toList = .ok none ∨
      ∀ x y, numberField o name.toList = .ok (some x) → reread libs x = some y → OwnNumber v name y) ↔
        ∀ y, x.bind (reread libs) = some y → OwnNumber v name y := by
  obtain ⟨q, rfl⟩ := hp
  cases x with
  | none => simp [hx]
  | some x =>
    have hwhole := numberField_append hx (hcut.resolve_left (by rw [hx]; exact nofun))
    rw [hx, hwhole]
    simp only [Except.ok.injEq, Option.some.injEq, reduceCtorEq, false_or, Option.bind_some]
    exact ⟨fun h y => h x y rfl, fun h _ y hx => hx ▸ h y⟩

theorem ownNumbers_part {c : ℚ} {stop take mult : Option ℚ} (hp : p <+: o)
    (hconf : numberField p "confidence".toList = .ok (some c)) (hstop : numberField p "stop_loss_pct".toList = .ok stop)
    (htake : numberField p "take_profit_pct".toList = .ok take)
    (hmult : numberField p "position_size_multiplier".toList = .ok mult)
    (huncut : ∀ name ∈ numberNames, numberField p name.toList = .ok none ∨ ¬ CutAt p o name.toList) :
    (∀ name ∈ tradedNumbers, numberField p name.toList = .ok none ∨
      ∀ x y, numberField o name.toList = .ok (some x) → reread libs x = some y → OwnNumber v name y) ↔
        (∀ y, reread libs c = some y → OwnNumber v "confidence" y) ∧
          (∀ y, stop.bind (reread libs) = some y → OwnNumber v "stop_loss_pct" y) ∧
            (∀ y, take.bind (reread libs) = some y → OwnNumber v "take_profit_pct" y) ∧
              ∀ y, mult.bind (reread libs) = some y → OwnNumber v "position_size_multiplier" y := by
  have hown : ∀ name ∈ tradedNumbers, ∀ x, numberField p name.toList = .ok x →
      ((numberField p name.toList = .ok none ∨
        ∀ x y, numberField o name.toList = .ok (some x) → reread libs x = some y → OwnNumber v name y) ↔
          ∀ y, x.bind (reread libs) = some y → OwnNumber v name y) :=
    fun name hname x hx => ownNumber_part hp hx (huncut name (List.mem_append_left _ hname))
  simp only [tradedNumbers, List.forall_mem_cons, List.not_mem_nil, false_imp_iff, implies_true, and_true] at hown ⊢
  obtain ⟨hownConf, hownStop, hownTake, hownMult⟩ := hown
  rw [hownConf _ hconf, hownStop _ hstop, hownTake _ htake, hownMult _ hmult, Option.bind_some]

theorem salvageMap_part (libs : Libs) (ho : IsObject o) (hp : p <+: o) :
    (¬ ∃ d c, Accepts libs p d c) ∧ salvageMap libs p = .ok none ∨ ∃ d c stop take mult hint reasoning,
      Accepts libs p d c ∧ numberField p "stop_loss_pct".toList = .ok stop ∧
        numberField p "take_profit_pct".toList = .ok take ∧ numberField p "position_size_multiplier".toList = .ok mult ∧
          salvageMap libs p = .ok (some (salvaged libs d c stop take mult hint reasoning)) := by
  have hescapes := not_escapesAt ho hp
  obtain ⟨hpanic, -⟩ | ⟨-, hnone⟩ | ⟨-, d, c, haccepts⟩ := salvageMap_cases libs p
  · exact absurd hpanic (hescapes _)
  · exact .inl hnone
  · obtain ⟨stop, hstop⟩ := numberField_isOk p "stop_loss_pct".toList
    obtain ⟨take, htake⟩ := numberField_isOk p "take_profit_pct".toList
    obtain ⟨mult, hmult⟩ := numberField_isOk p "position_size_multiplier".toList
    obtain ⟨hint, hhint⟩ := numberField_isOk p "entry_price_hint".toList
    have hmap := salvageMap_of_accepts libs haccepts hstop htake hmult hhint
    cases hreasoning : stringField p "reasoning".toList with
    | error e =>
      rw [stringField_error hreasoning] at hreasoning
      exact absurd (stringField_panic.1 hreasoning) (hescapes _)
    | ok reasoning =>
      rw [hreasoning] at hmap
      exact .inr ⟨d, c, stop, take, mult, hint, reasoning, haccepts, hstop, htake, hmult, hmap⟩

/-- Where what is written can be read, it has the same texts, and each number as it is read alone. -/
def RoundTrips (libs : Libs) (v : Json) : Prop :=
  ∀ w, libs.fromStr (libs.toJsonText v) = .ok w → ∀ key, (w.get key).bind Json.asStr = (v.get key).bind Json.asStr ∧
    (w.get key).bind asF64 = ((v.get key).bind asF64).bind (reread libs)

theorem tacticalText_salvaged {e : AiError} (hextract : extractJsonBlock libs p = .error (.err e))
    (hmap : salvageMap libs p = .ok (some v)) : tacticalText libs p = .ok (libs.toJsonText v) := by
  have hsalvage : salvage libs p = .ok (some (libs.toJsonText v)) := by
    rw [salvage, hmap]
    rfl
  rw [tacticalText, hextract]
  dsimp only
  rw [hsalvage]
  rfl

theorem parseTacticalDecision_none {e : AiError} (hextract : extractJsonBlock libs p = .error (.err e))
    (hmap : salvageMap libs p = .ok none) : parseTacticalDecision libs p = .error (.err e) := by
  have hsalvage : salvage libs p = .ok none := by
    rw [salvage, hmap]
    rfl
  rw [parseTacticalDecision, tacticalText, hextract]
  dsimp only
  rw [hsalvage]
  rfl

/-- The fields of a salvaged object as they are read. -/
structure ReadBack (libs : Libs) (w : Json) (d : Text) (conf stop take mult : Option ℚ) : Prop where
  direction : (w.get "direction").bind Json.asStr = some (String.ofList (normalize libs d))
  confidence : (w.get "confidence").bind asF64 = conf
  stop : (w.get "stop_loss_pct").bind asF64 = stop
  take : (w.get "take_profit_pct").bind asF64 = take
  mult : multiplier w = mult

theorem bind_asF64_float (x : Option ℚ) : (x.map Json.float).bind asF64 = x := by cases x <;> rfl

theorem readBack_salvaged {d : Text} {c : ℚ} {stop take mult hint : Option ℚ} {reasoning : Option Text} {w : Json}
    (hround : RoundTrips libs (salvaged libs d c stop take mult hint reasoning))
    (hw : libs.fromStr (libs.toJsonText (salvaged libs d c stop take mult hint reasoning)) = .ok w) :
    ReadBack libs w d (reread libs c) (stop.bind (reread libs)) (take.bind (reread libs)) (mult.bind (reread libs)) := by
  obtain ⟨hdir, hconf, hstop, htake, hmult⟩ := get_salvaged libs d c stop take mult hint reasoning
  have hread := hround w hw
  refine ⟨?_, ?_, ?_, ?_, ?_⟩
  · rw [(hread _).1, hdir]
    rfl
  · rw [(hread _).2, hconf]
    rfl
  · rw [(hread _).2, hstop, bind_asF64_float]
  · rw [(hread _).2, htake, bind_asF64_float]
  · rw [multiplier, (hread _).2, hmult, bind_asF64_float]

section read
variable {d : Text} {conf stop take mult : Option ℚ} {w : Json}

theorem ReadBack.tacticalOf_ok (h : ReadBack libs w d conf stop take mult) (hwords : KeepsWords libs)
    (hword : normalize libs d ∈ tacticalDirections) (hunit : ∃ y, conf = some y ∧ 0 ≤ y ∧ y ≤ 1)
    (hclamp : ∀ y, mult = some y → 0 ≤ y ∧ y ≤ 2) : ∃ r', tacticalOf libs w = .ok r' := by
  have hdir : requireDirection libs w = .ok (normalize libs d) := by
    rw [requireDirection, requireWord, h.direction]
    dsimp only
    rw [String.toList_ofList, normalize_normalize hwords hword, if_pos hword]
  obtain ⟨y, hy, hrange⟩ := hunit
  have hconf : requireConfidence w = .ok y := by
    rw [requireConfidence, h.confidence, hy]
    exact if_neg (not_not.2 hrange)
  have hmult : clampMultiplier w = .ok () := by
    rw [clampMultiplier, h.mult]
    cases mult with
    | none => rfl
    | some x => exact if_neg (not_not.2 (hclamp x rfl))
  exact ⟨_, by rw [tacticalOf, hdir, ok_bind, hconf, ok_bind, hmult, ok_bind]; rfl⟩

theorem ReadBack.tacticalOf_refused (h : ReadBack libs w d conf stop take mult)
    (hrange : ¬ ((∃ y, conf = some y ∧ 0 ≤ y ∧ y ≤ 1) ∧ ∀ y, mult = some y → 0 ≤ y ∧ y ≤ 2)) :
    ∃ e, tacticalOf libs w = .error (.err e) := by
  cases htactical : tacticalOf libs w with
  | error failure =>
    cases failure with
    | err e => exact ⟨e, rfl⟩
    | panic => exact absurd htactical (tacticalOf_safe libs _)
  | ok r' =>
    obtain ⟨d', c', hdecides⟩ := decides_of_ok htactical
    refine absurd ⟨⟨c', ?_, hdecides.range⟩, fun y hy => hdecides.clamp y (h.mult.trans hy)⟩ hrange
    rw [← h.confidence, hdecides.confidence]

end read

theorem decides_of_fromText {s : Text} (h : fromText libs s >>= tacticalOf libs = .ok r) :
    ∃ v, libs.fromStr s = .ok v ∧ ∃ d c, Decides libs v r d c := by
  rw [fromText] at h
  cases hv : libs.fromStr s with
  | error message =>
    rw [hv] at h
    cases h
  | ok v =>
    rw [hv] at h
    exact ⟨v, rfl, decides_of_ok h⟩

/-- What a decision is read from. -/
theorem exists_tacticalText (h : parseTacticalDecision libs o = .ok r) :
    ∃ s v, tacticalText libs o = .ok s ∧ libs.fromStr s = .ok v ∧ ∃ d c, Decides libs v r d c := by
  cases htext : tacticalText libs o with
  | error e =>
    rw [parseTacticalDecision, htext] at h
    cases h
  | ok s =>
    rw [parseTacticalDecision_of_text htext] at h
    obtain ⟨v, hv, hdecides⟩ := decides_of_fromText h
    exact ⟨s, v, rfl, hv, hdecides⟩

theorem float_inj {x y : Option ℚ} : x.map Json.float = y.map Json.float ↔ x = y :=
  (Option.map_injective fun _ _ h => Json.float.inj h).eq_iff

theorem ownNumber_iff {name : String} (hname : name ≠ "position_size_multiplier") (x : Option ℚ) :
    (x.map Json.float = floatField v name ∨ x.map Json.float = none) ↔ ∀ y, x = some y → OwnNumber v name y := by
  cases x with
  | none => simp
  | some x =>
    have hsame : (some x).map Json.float = floatField v name ↔ (v.get name).bind asF64 = some x := by
      rw [floatField, float_inj, eq_comm]
    rw [Option.map_some] at hsame
    simp [hsame, OwnNumber, hname]

theorem ownMultiplier_iff (x : Option ℚ) : (x.getD 1 = (multiplier v).getD 1 ∨ x.getD 1 = 1) ↔
    ∀ y, x = some y → OwnNumber v "position_size_multiplier" y := by
  cases x with
  | none => simp
  | some x =>
    show x = (multiplier v).getD 1 ∨ x = 1 ↔ _
    cases hmult : multiplier v with
    | none =>
      have hnone : (v.get "position_size_multiplier").bind asF64 = none := hmult
      simp [OwnNumber, hnone]
    | some y =>
      have hsome : (v.get "position_size_multiplier").bind asF64 = some y := hmult
      simp [OwnNumber, hsome, eq_comm]

/-- The salvaged decision and that of the object agree where the fields do. -/
theorem agrees_iff {d d' dv : Text} {c' cv : ℚ} {conf stop take mult : Option ℚ} {r' w : Json}
    (hwords : KeepsWords libs) (hword : normalize libs d ∈ tacticalDirections)
    (hread : ReadBack libs w d conf stop take mult) (hpart : Decides libs w r' d' c') (hwhole : Decides libs v r dv cv) :
    Agrees r' r ↔ normalize libs dv = normalize libs d ∧ (∀ y, conf = some y → OwnNumber v "confidence" y) ∧
      (∀ y, stop = some y → OwnNumber v "stop_loss_pct" y) ∧ (∀ y, take = some y → OwnNumber v "take_profit_pct" y) ∧
      ∀ y, mult = some y → OwnNumber v "position_size_multiplier" y := by
  have hd' : d' = normalize libs d :=
    String.ofList_injective (Option.some.inj (hpart.direction.symm.trans hread.direction))
  have hc' : conf = some c' := hread.confidence.symm.trans hpart.confidence
  have hdir : r'.get "direction" = r.get "direction" ↔ normalize libs dv = normalize libs d := by
    rw [hpart.getDirection, hwhole.getDirection, hd', normalize_normalize hwords hword, Option.some.injEq, Json.str.injEq,
      String.ofList_inj, eq_comm]
  have hconf : r'.get "confidence" = r.get "confidence" ↔ ∀ y, conf = some y → OwnNumber v "confidence" y := by
    rw [hpart.getConfidence, hwhole.getConfidence, hc', Option.some.injEq, Json.float.injEq]
    simp [OwnNumber, hwhole.confidence, eq_comm]
  have hstop : (r'.get "stop_loss_pct" = r.get "stop_loss_pct" ∨ r'.get "stop_loss_pct" = none) ↔
      ∀ y, stop = some y → OwnNumber v "stop_loss_pct" y := by
    rw [hpart.getStop, hwhole.getStop, floatField, hread.stop]
    exact ownNumber_iff (by decide) stop
  have htake : (r'.get "take_profit_pct" = r.get "take_profit_pct" ∨ r'.get "take_profit_pct" = none) ↔
      ∀ y, take = some y → OwnNumber v "take_profit_pct" y := by
    rw [hpart.getTake, hwhole.getTake, floatField, hread.take]
    exact ownNumber_iff (by decide) take
  have hmult : (r'.get "position_size_multiplier" = r.get "position_size_multiplier" ∨
      r'.get "position_size_multiplier" = some (.float 1)) ↔
        ∀ y, mult = some y → OwnNumber v "position_size_multiplier" y := by
    rw [hpart.getMultiplier, hwhole.getMultiplier, hread.mult, Option.some.injEq, Json.float.injEq, Option.some.injEq,
      Json.float.injEq]
    exact ownMultiplier_iff mult
  rw [← hdir, ← hconf, ← hstop, ← htake, ← hmult]
  exact ⟨fun ⟨h₁, h₂, h₃, h₄, h₅⟩ => ⟨h₁, h₂, h₃, h₄, h₅⟩, fun ⟨h₁, h₂, h₃, h₄, h₅⟩ => ⟨h₁, h₂, h₃, h₄, h₅⟩⟩

theorem uncut_iff (hextract : ¬ ∃ s, extractJsonBlock libs p = .ok s) :
    (∀ name ∈ numberNames, numberField p name.toList = .ok none ∨ ¬ CutAt p o name.toList) ↔ ¬ TakesCut libs o p := by
  constructor
  · rintro huncut ⟨-, name, hname, ⟨x, hx⟩, hcut⟩
    obtain hnone | hcut' := huncut name hname
    · rw [hnone] at hx
      cases hx
    · exact hcut' hcut
  · intro htakes name hname
    obtain ⟨x, hx⟩ := numberField_isOk p name.toList
    cases x with
    | none => exact .inl hx
    | some x => exact .inr fun hcut => htakes ⟨hextract, name, hname, ⟨x, hx⟩, hcut⟩

theorem ownDirection_iff {d dv : Text} {c cv : ℚ} (hp : p <+: o) (haccepts : Accepts libs p d c)
    (hwhole : Decides libs v r dv cv) : OwnDirection libs o v ↔ normalize libs dv = normalize libs d := by
  obtain ⟨q, rfl⟩ := hp
  have hsame := stringField_append haccepts.direction q
  constructor
  · intro hown
    obtain ⟨dv', hdv', hnormal⟩ := hown d hsame
    obtain rfl := String.ofList_injective (Option.some.inj (hwhole.direction.symm.trans hdv'))
    exact hnormal
  · intro hnormal d₀ hd₀
    obtain rfl := Option.some.inj (Except.ok.inj (hsame.symm.trans hd₀))
    exact ⟨dv, hwhole.direction, hnormal⟩

theorem truncationSafe_extracted {s : Text} (hextract : extractJsonBlock libs p = .ok s)
    (hok : parseTacticalDecision libs o = .ok r) (hreads : ReadsWhole libs o p) : TruncationSafe libs o p r := by
  have hparse := parseTacticalDecision_of_text (tacticalText_extracted hextract)
  cases hdecision : fromText libs s >>= tacticalOf libs with
  | error failure =>
    cases failure with
    | err e => exact .inl ⟨e, hparse.trans hdecision⟩
    | panic => exact absurd hdecision (safe_bind (fromText_safe libs s) fun v _ => tacticalOf_safe libs v)
  | ok r' =>
    obtain ⟨v, hv, d, c, hdecides⟩ := decides_of_fromText hdecision
    have hwhole := parseTacticalDecision_of_text (hreads.extracted s v d c hextract hv hdecides.toAcceptable)
    obtain rfl := Except.ok.inj (hok.symm.trans (hwhole.trans hdecision))
    exact .inr ⟨r, hparse.trans hdecision, ⟨rfl, rfl, .inl rfl, .inl rfl, .inl rfl⟩, fun hcut => hcut.1 ⟨s, hextract⟩⟩

theorem truncationSafe_salvaged_iff (hwords : KeepsWords libs) (ho : IsObject o) (hp : p <+: o)
    (hok : parseTacticalDecision libs o = .ok r) (hround : ∀ v, salvageMap libs p = .ok (some v) → RoundTrips libs v)
    (hextract : ¬ ∃ s, extractJsonBlock libs p = .ok s) : TruncationSafe libs o p r ↔ ReadsWhole libs o p := by
  have hnothing : ∀ s v d c, extractJsonBlock libs p = .ok s → libs.fromStr s = .ok v → Acceptable libs v d c →
      tacticalText libs o = .ok s := fun s _ _ _ hs => absurd ⟨s, hs⟩ hextract
  obtain ⟨e, herror⟩ : ∃ e, extractJsonBlock libs p = .error (.err e) := by
    by_contra hpanics
    exact hextract (isOk_of_safe (not_exists.1 hpanics) (extractJsonBlock_safe libs p))
  obtain ⟨hreject, hnone⟩ | ⟨d, c, stop, take, mult, hint, reasoning, haccepts, hstop, htake, hmult, hmap⟩ :=
    salvageMap_part libs ho hp
  · have hnever : ¬ ∃ d c, Recovers libs p d c := fun ⟨d, c, h⟩ => hreject ⟨d, c, h.toAccepts⟩
    exact ⟨fun _ => ⟨hnothing, fun _ h => absurd h hnever⟩,
      fun _ => .inl ⟨e, parseTacticalDecision_none herror hnone⟩⟩
  have hparse := parseTacticalDecision_of_text (tacticalText_salvaged herror hmap)
  rw [fromText] at hparse
  cases hw : libs.fromStr (libs.toJsonText (salvaged libs d c stop take mult hint reasoning)) with
  | error message =>
    -- what is written cannot be read
    rw [hw] at hparse
    have hnever : ¬ ∃ d c, Recovers libs p d c := by
      rintro ⟨d, c, h⟩
      have hread := h.isRead _ hmap
      rw [hw] at hread
      cases hread
    exact ⟨fun _ => ⟨hnothing, fun _ h => absurd h hnever⟩, fun _ => .inl ⟨_, hparse⟩⟩
  | ok w =>
    rw [hw] at hparse
    have hread := readBack_salvaged (hround _ hmap) hw
    by_cases hrange : (∃ y, reread libs c = some y ∧ 0 ≤ y ∧ y ≤ 1) ∧
        ∀ y, mult.bind (reread libs) = some y → 0 ≤ y ∧ y ≤ 2
    swap
    · -- the confidence or the multiplier is refused
      obtain ⟨e, he⟩ := hread.tacticalOf_refused hrange
      have hnever : ¬ ∃ d c, Recovers libs p d c := by
        rintro ⟨d', c', h⟩
        obtain rfl := Option.some.inj (Except.ok.inj (haccepts.confidence.symm.trans h.confidence))
        refine hrange ⟨h.unit, fun y hy => ?_⟩
        obtain ⟨x, rfl, hx⟩ := Option.bind_eq_some_iff.1 hy
        exact h.clamp x y hmult hx
      exact ⟨fun _ => ⟨hnothing, fun _ h => absurd h hnever⟩, fun _ => .inl ⟨e, hparse.trans he⟩⟩
    have hrecovers : Recovers libs p d c := by
      refine ⟨haccepts, fun v hv => ?_, hrange.1, fun x y hx hy => hrange.2 y ?_⟩
      · obtain rfl := Option.some.inj (Except.ok.inj (hmap.symm.trans hv))
        rw [hw]
        rfl
      · obtain rfl := Except.ok.inj (hmult.symm.trans hx)
        exact hy
    obtain ⟨r', htactical⟩ := hread.tacticalOf_ok hwords haccepts.word hrange.1 hrange.2
    obtain ⟨s, v, hs, hv, dv, cv, hwhole⟩ := exists_tacticalText hok
    obtain ⟨d', c', hdecides⟩ := decides_of_ok htactical
    have hagrees := agrees_iff hwords haccepts.word hread hdecides hwhole
    have hparse := hparse.trans htactical
    have huncut := uncut_iff (o := o) hextract
    have hdirection := ownDirection_iff hp haccepts hwhole
    constructor
    · rintro (⟨e, he⟩ | ⟨r'', hr'', hsame, htakes⟩)
      · rw [hparse] at he
        cases he
      obtain rfl := Except.ok.inj (hparse.symm.trans hr'')
      obtain ⟨hnormal, hown⟩ := hagrees.1 hsame
      have huncut := huncut.2 htakes
      exact ⟨hnothing, fun _ _ => ⟨s, v, hs, hv, hdirection.2 hnormal, huncut,
        (ownNumbers_part hp haccepts.confidence hstop htake hmult huncut).2 hown⟩⟩
    · intro hreads
      obtain ⟨s', v', hs', hv', hown, huncut', hnumbers⟩ := hreads.salvaged hextract ⟨d, c, hrecovers⟩
      obtain rfl := Except.ok.inj (hs.symm.trans hs')
      obtain rfl := Except.ok.inj (hv.symm.trans hv')
      have hsame : Agrees r' r := hagrees.2 ⟨hdirection.1 hown,
        (ownNumbers_part hp haccepts.confidence hstop htake hmult huncut').1 hnumbers⟩
      exact .inr ⟨r', hparse, hsame, huncut.1 huncut'⟩

/-- **A reply that breaks off** gives an error or the decision of the whole object, without the numbers that are not
there, if what it is read from is what the object has; and, unless a fence in a string gives an object, only then. -/
theorem parseTactical_truncated_iff (hwords : KeepsWords libs) (ho : IsObject o) (hp : p <+: o)
    (hok : parseTacticalDecision libs o = .ok r)
    (hround : ∀ v, salvageMap libs p = .ok (some v) → RoundTrips libs v) :
    (ReadsWhole libs o p → TruncationSafe libs o p r) ∧
      ((¬ ∃ s, extractJsonBlock libs p = .ok s) → TruncationSafe libs o p r → ReadsWhole libs o p) := by
  have hiff := truncationSafe_salvaged_iff hwords ho hp hok hround
  refine ⟨fun hreads => ?_, fun hextract => (hiff hextract).1⟩
  by_cases hextract : ∃ s, extractJsonBlock libs p = .ok s
  · obtain ⟨s, hs⟩ := hextract
    exact truncationSafe_extracted hs hok hreads
  · exact (hiff hextract).2 hreads

end truncated

/-! ## A number that is cut -/

theorem isString_word {w : Text} (h : ∀ c ∈ w, c ≠ '"' ∧ c ≠ '\\' ∧ 0x20 ≤ c.toNat) : IsString ('"' :: w ++ ['"']) := by
  refine ⟨w, ?_, rfl⟩
  induction w with
  | nil => exact .nil
  | cons c w ih =>
    obtain ⟨⟨hquote, hslash, hspace⟩, hw⟩ := List.forall_mem_cons.1 h
    exact .plain hquote hslash hspace (ih hw)

/-- An object with two members. -/
def pair (k₁ v₁ k₂ v₂ : Text) : Text := '{' :: (k₁ ++ ':' :: v₁ ++ ',' :: (k₂ ++ ':' :: v₂)) ++ ['}']

theorem isObject_pair {k₁ v₁ k₂ v₂ : Text} (hk₁ : IsString k₁) (hv₁ : Derives .value v₁) (hk₂ : IsString k₂)
    (hv₂ : Derives .value v₂) : IsObject (pair k₁ v₁ k₂ v₂) := by
  have hspaces : Spaces [] := fun _ h => absurd h List.not_mem_nil
  have hmember : ∀ {k v : Text}, IsString k → Derives .value v → Derives .member (k ++ ':' :: v) := by
    intro k v hk hv
    have h := Derives.member hspaces hk hspaces (.element hspaces hv hspaces)
    simpa using h
  exact ⟨.object (.members (hmember hk₁ hv₁) (.lastMember (hmember hk₂ hv₂))), rfl⟩

def directionKey : Text := "\"direction\"".toList

def confidenceKey : Text := "\"confidence\"".toList

def buyWord : Text := "\"buy\"".toList

def reply : Text := pair directionKey buyWord confidenceKey "0.55".toList

/-- Without its last brace. -/
def openReply : Text := reply.dropLast

/-- Without the last digit, too. -/
def cutReply : Text := openReply.dropLast

/-- The double next to 0.55. -/
def fiftyFive : ℚ := 2476979795053773 / 2 ^ 52

def decisionValue (c : ℚ) : Json := .obj [("confidence", .float c), ("direction", .str "buy")]

def digitsOf (c : ℚ) : Text := if c = 1 / 2 then "0.5".toList else "0.55".toList

/-- As a map is written, by its keys in order. -/
def written (digits : Text) : Text := pair confidenceKey digits directionKey buyWord

noncomputable def replyLibs : Libs :=
  tableLibs [(reply, decisionValue fiftyFive), (written "0.55".toList, decisionValue fiftyFive),
    (written "0.5".toList, decisionValue (1 / 2)), ("0.55".toList, .float fiftyFive), ("0.5".toList, .float (1 / 2))]
    fun v =>
      match v with
      | .float c => digitsOf c
      | v =>
        match v.get "confidence" with
        | some (.float c) => written (digitsOf c)
        | _ => []

theorem isString_directionKey : IsString directionKey :=
  isString_word (w := "direction".toList) (List.all_iff_forall_prop.1 (by decide))

theorem isString_confidenceKey : IsString confidenceKey :=
  isString_word (w := "confidence".toList) (List.all_iff_forall_prop.1 (by decide))

theorem isString_buyWord : IsString buyWord :=
  isString_word (w := "buy".toList) (List.all_iff_forall_prop.1 (by decide))

theorem isNumber_fraction {ds : Text} (h : IsDigits ds) : IsNumber ('0' :: '.' :: ds) :=
  ⟨[], ['0'], '.' :: ds, [], by simp, .inl rfl, .inr ⟨ds, h, rfl⟩, .inl rfl, by simp⟩

theorem isNumber_digits {digits : Text} (h : digits ∈ ["0.5".toList, "0.55".toList]) : IsNumber digits := by
  simp only [List.mem_cons, List.not_mem_nil, or_false] at h
  rcases h with rfl | rfl <;> exact isNumber_fraction ⟨by simp, List.all_eq_true.1 (by decide)⟩

theorem isObject_reply : IsObject reply :=
  isObject_pair isString_directionKey (.string isString_buyWord) isString_confidenceKey
    (.number (isNumber_digits (by simp)))

theorem isObject_written {digits : Text} (h : digits ∈ ["0.5".toList, "0.55".toList]) : IsObject (written digits) :=
  isObject_pair isString_confidenceKey (.number (isNumber_digits h)) isString_directionKey (.string isString_buyWord)

theorem isText_digits {digits : Text} (h : digits ∈ ["0.5".toList, "0.55".toList]) : IsText digits := by
  have hspaces : Spaces [] := fun _ h => absurd h List.not_mem_nil
  have helement := Derives.element hspaces (.number (isNumber_digits h)) hspaces
  rwa [List.nil_append, List.append_nil] at helement

theorem acceptsJson_replyLibs : AcceptsJson replyLibs := by
  have hwritten : ∀ digits ∈ ["0.5".toList, "0.55".toList], IsText (written digits) := fun digits h =>
    (isObject_written h).isText
  have hdigits : ∀ digits ∈ ["0.5".toList, "0.55".toList], IsText digits := fun _ => isText_digits
  exact acceptsJson_tableLibs (by simp [isObject_reply.isText, hwritten, hdigits]) _

theorem fromStr_reply : replyLibs.fromStr reply = .ok (decisionValue fiftyFive) := fromStr_tableLibs rfl _

/-- Either number is read as it was written. -/
theorem fromStr_written {c : ℚ} (h : c ∈ [fiftyFive, 1 / 2]) :
    replyLibs.fromStr (written (digitsOf c)) = .ok (decisionValue c) ∧ reread replyLibs c = some c := by
  have hfive : fiftyFive ≠ 1 / 2 := by norm_num [fiftyFive]
  have htexts : replyLibs.fromStr (written "0.55".toList) = .ok (decisionValue fiftyFive) ∧
      replyLibs.fromStr (written "0.5".toList) = .ok (decisionValue (1 / 2)) ∧
        replyLibs.fromStr "0.55".toList = .ok (.float fiftyFive) ∧
          replyLibs.fromStr "0.5".toList = .ok (.float (1 / 2)) :=
    ⟨fromStr_tableLibs rfl _, fromStr_tableLibs rfl _, fromStr_tableLibs rfl _, fromStr_tableLibs rfl _⟩
  obtain ⟨hlong, hshort, hlong', hshort'⟩ := htexts
  simp only [List.mem_cons, List.not_mem_nil, or_false] at h
  have htext (c : ℚ) : replyLibs.toJsonText (.float c) = digitsOf c := rfl
  unfold reread
  rw [htext]
  rcases h with rfl | rfl
  · rw [digitsOf, if_neg hfive, hlong, hlong']
    exact ⟨rfl, rfl⟩
  · rw [digitsOf, if_pos rfl, hshort, hshort']
    exact ⟨rfl, rfl⟩

theorem keepsWords_replyLibs : KeepsWords replyLibs := by
  show ∀ w ∈ tacticalDirections, w.map Char.toLower = w
  decide

theorem unfenced_of_noFence {libs : Libs} {raw : Text} (hjson : findCaseInsensitive (trim raw) jsonFence = none)
    (hplain : find fence (trim raw) = none) : Unfenced libs raw :=
  ⟨by rw [jsonFenced, hjson], by rw [plainFenced, hplain]⟩

theorem unfenced_reply {p : Text} (h : p ∈ [reply, openReply, cutReply]) : Unfenced replyLibs p := by
  have hall : ∀ p ∈ [reply, openReply, cutReply],
      findCaseInsensitive (trim p) jsonFence = none ∧ find fence (trim p) = none := by decide +kernel
  exact unfenced_of_noFence (hall p h).1 (hall p h).2

/-- What the decision is, for either confidence. -/
def buy (c : ℚ) : Json := .obj [("direction", .str "buy"), ("confidence", .float c), ("position_size_multiplier", .float 1)]

theorem tacticalOf_decisionValue {c : ℚ} (h : 0 ≤ c ∧ c ≤ 1) : tacticalOf replyLibs (decisionValue c) = .ok (buy c) := by
  have hdir : requireDirection replyLibs (decisionValue c) = .ok "buy".toList := rfl
  have hconf : requireConfidence (decisionValue c) = .ok c := if_neg (not_not.2 h)
  rw [tacticalOf, hdir, ok_bind, hconf]
  rfl

theorem tacticalText_reply : tacticalText replyLibs reply = .ok reply :=
  tacticalText_extracted (extractJsonBlock_whole acceptsJson_replyLibs isObject_reply (unfenced_reply (by simp)))

theorem parse_reply : parseTacticalDecision replyLibs reply = .ok (buy fiftyFive) := by
  rw [parseTacticalDecision_of_text tacticalText_reply, fromText, fromStr_reply]
  exact tacticalOf_decisionValue (by norm_num [fiftyFive])

theorem normalize_buy : normalize replyLibs "buy".toList = "buy".toList := rfl

/-- The number that either part is read with. -/
theorem salvageMap_part_reply {p : Text} {c : ℚ} (h : (p, c) ∈ [(openReply, fiftyFive), (cutReply, 1 / 2)]) :
    Accepts replyLibs p "buy".toList c ∧
      salvageMap replyLibs p = .ok (some (salvaged replyLibs "buy".toList c none none none none none)) := by
  have hfields : ∀ pc ∈ [(openReply, fiftyFive), (cutReply, 1 / 2)],
      stringField pc.1 "direction".toList = .ok (some "buy".toList) ∧
        numberField pc.1 "confidence".toList = .ok (some pc.2) ∧ (0 ≤ pc.2 ∧ pc.2 ≤ 1) ∧
          numberField pc.1 "stop_loss_pct".toList = .ok none ∧ numberField pc.1 "take_profit_pct".toList = .ok none ∧
            numberField pc.1 "position_size_multiplier".toList = .ok none ∧
              numberField pc.1 "entry_price_hint".toList = .ok none ∧ stringField pc.1 "reasoning".toList = .ok none := by
    decide +kernel
  obtain ⟨hdir, hconf, hrange, hstop, htake, hmult, hhint, hreasoning⟩ := hfields _ h
  have hword : normalize replyLibs "buy".toList ∈ tacticalDirections := by
    rw [normalize_buy]
    decide
  have haccepts : Accepts replyLibs p "buy".toList c := ⟨hdir, hword, hconf, hrange⟩
  refine ⟨haccepts, ?_⟩
  rw [salvageMap_of_accepts replyLibs haccepts hstop htake hmult hhint, hreasoning]
  rfl

theorem get_decisionValue (c : ℚ) (key : String) :
    (decisionValue c).get key = (salvaged replyLibs "buy".toList c none none none none none).get key := by
  rw [salvaged, normalize_buy]
  show List.lookup key [("confidence", _), ("direction", _)] = List.lookup key [("direction", _), ("confidence", _)]
  by_cases hconf : key = "confidence"
  · subst hconf
    rfl
  by_cases hdir : key = "direction"
  · subst hdir
    rfl
  · simp only [List.lookup_cons, beq_false_of_ne hconf, beq_false_of_ne hdir]

theorem toJsonText_salvaged (c : ℚ) :
    replyLibs.toJsonText (salvaged replyLibs "buy".toList c none none none none none) = written (digitsOf c) := rfl

theorem mem_confidences {p : Text} {c : ℚ} (h : (p, c) ∈ [(openReply, fiftyFive), (cutReply, 1 / 2)]) :
    c ∈ [fiftyFive, 1 / 2] := by
  simp only [List.mem_cons, List.not_mem_nil, or_false, Prod.mk.injEq] at h ⊢
  exact h.imp (·.2) (·.2)

theorem roundTrips_reply {p : Text} {c : ℚ} (h : (p, c) ∈ [(openReply, fiftyFive), (cutReply, 1 / 2)]) :
    ∀ v, salvageMap replyLibs p = .ok (some v) → RoundTrips replyLibs v := by
  intro v hv w hw key
  rw [(salvageMap_part_reply h).2] at hv
  obtain rfl := Option.some.inj (Except.ok.inj hv)
  obtain ⟨hread, hnumber⟩ := fromStr_written (mem_confidences h)
  rw [toJsonText_salvaged, hread] at hw
  obtain rfl := Except.ok.inj hw
  rw [← get_decisionValue]
  refine ⟨rfl, ?_⟩
  show ((List.lookup key [("confidence", _), ("direction", _)]).bind asF64) = _
  by_cases hconf : key = "confidence"
  · subst hconf
    exact hnumber.symm
  by_cases hdir : key = "direction"
  · subst hdir
    rfl
  · rw [decisionValue, Json.get]
    simp only [List.lookup_cons, beq_false_of_ne hconf, beq_false_of_ne hdir, List.lookup_nil, Option.bind_none]

theorem cut_openReply : Cut openReply reply := ⟨⟨['}'], rfl⟩, by decide⟩

theorem readsWhole_openReply : ReadsWhole replyLibs reply openReply where
  extracted := by
    intro s _ _ _ hs
    obtain ⟨e, hextract⟩ := extractJsonBlock_cut acceptsJson_replyLibs.only isObject_reply cut_openReply
      (unfenced_reply (by simp))
    rw [hextract] at hs
    cases hs
  salvaged := by
    intro _ _
    have hnumbers : (∀ name ∈ numberNames, name = "confidence" ∨ numberField openReply name.toList = .ok none) ∧
        numberField reply "confidence".toList = .ok (some fiftyFive) ∧
          stringField reply "direction".toList = .ok (some "buy".toList) := by decide +kernel
    obtain ⟨hnone, hconf, hdir⟩ := hnumbers
    refine ⟨_, _, tacticalText_reply, fromStr_reply, ?_, ?_, ?_⟩
    · intro d hd
      obtain rfl := Option.some.inj (Except.ok.inj (hdir.symm.trans hd))
      exact ⟨_, rfl, rfl⟩
    · -- the brace ends whatever number is last
      rintro name -
      refine .inr ?_
      rintro ⟨s, c, rest, -, -, hlonger, hends⟩
      have hbrace : openReply ++ '}' :: [] = openReply ++ c :: rest := hlonger
      obtain ⟨rfl, rfl⟩ := List.cons.inj (List.append_cancel_left hbrace)
      cases hends
    · intro name hname
      obtain rfl | hnone := hnone name (List.mem_append_left _ hname)
      · refine .inr fun x y hx hy => .inl ?_
        obtain rfl := Option.some.inj (Except.ok.inj (hconf.symm.trans hx))
        obtain rfl := Option.some.inj ((fromStr_written (by simp)).2.symm.trans hy)
        rfl
      · exact .inl hnone

theorem parseTactical_openReply : TruncationSafe replyLibs reply openReply (buy fiftyFive) :=
  (parseTactical_truncated_iff keepsWords_replyLibs isObject_reply cut_openReply.1 parse_reply
    (roundTrips_reply (p := openReply) (c := fiftyFive) (by simp))).1 readsWhole_openReply

/-- Half of the confidence is enough. -/
theorem cut_confidence : AcceptsJson replyLibs ∧ KeepsWords replyLibs ∧ IsObject reply ∧ cutReply <+: reply ∧
    parseTacticalDecision replyLibs reply = .ok (buy fiftyFive) ∧
      parseTacticalDecision replyLibs cutReply = .ok (buy (1 / 2)) ∧
        ¬ TruncationSafe replyLibs reply cutReply (buy fiftyFive) := by
  have hcut : cutReply <+: reply ∧ cutReply ≠ reply := ⟨⟨['5', '}'], rfl⟩, by decide⟩
  obtain ⟨e, hextract⟩ :=
    extractJsonBlock_cut acceptsJson_replyLibs.only isObject_reply hcut (unfenced_reply (by simp))
  have hmap := (salvageMap_part_reply (p := cutReply) (c := 1 / 2) (by simp)).2
  have hparse : parseTacticalDecision replyLibs cutReply = .ok (buy (1 / 2)) := by
    rw [parseTacticalDecision_of_text (tacticalText_salvaged hextract hmap), toJsonText_salvaged, fromText,
      (fromStr_written (by simp)).1]
    exact tacticalOf_decisionValue (by norm_num)
  refine ⟨acceptsJson_replyLibs, keepsWords_replyLibs, isObject_reply, hcut.1, parse_reply, hparse, ?_⟩
  rintro (⟨e, he⟩ | ⟨r, hr, hagrees, -⟩)
  · rw [hparse] at he
    cases he
  · obtain rfl := Except.ok.inj (hparse.symm.trans hr)
    have hconf : (1 / 2 : ℚ) = fiftyFive := Json.float.inj (Option.some.inj hagrees.confidence)
    norm_num [fiftyFive] at hconf

end Qtss.Ai.Parser
