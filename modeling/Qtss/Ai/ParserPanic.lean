import Qtss.Ai.ParserScan
/-
# Where the parser panics

All slices but one are at boundaries: what is looked for is found between characters (`Qtss.Ai.ParserScan`). The one is
in the loop of `parse_json_string_field`, and only the salvage of a tactical decision runs it: on the direction and, once
direction and confidence are accepted, on the reasoning. So the other two parsers never panic, and this one does exactly
where such a string has a backslash before a character of more than one byte (`parse_panics_iff`).
-/

namespace Qtss.Ai.Parser
open Utf8

def Safe {α : Type} (x : Except Failure α) : Prop := x ≠ .error .panic

section safe
variable {α β : Type} {x : Except Failure α} {f : α → Except Failure β} {a b s : Text}

@[simp] theorem safe_ok (v : α) : Safe (.ok v : Except Failure α) := nofun

@[simp] theorem safe_err (e : AiError) : Safe (.error (.err e) : Except Failure α) := nofun

@[simp] theorem safe_fail (message : String) : Safe (fail message : Except Failure α) := nofun

theorem safe_bind (hx : Safe x) (hf : ∀ v, x = .ok v → Safe (f v)) : Safe (x >>= f) := by
  cases x with
  | ok v => exact hf v rfl
  | error e => exact fun h => hx (by cases h; rfl)

theorem ok_bind (v : α) (f : α → Except Failure β) : (.ok v : Except Failure α) >>= f = f v := rfl

theorem safe_map (hx : Safe x) (g : α → β) : Safe (g <$> x) := by
  cases x with
  | ok v => exact safe_ok _
  | error e => exact fun h => hx (by cases h; rfl)

theorem safe_attempt (hx : Safe x) : Safe (attempt x) := by
  cases x with
  | ok v => exact safe_ok _
  | error e =>
    cases e with
    | err e => exact safe_ok _
    | panic => exact absurd rfl hx

@[simp] theorem sliceFrom_append (a b : Text) : sliceFrom (a ++ b) (size a) = .ok b := by
  rw [sliceFrom, dropTo_append]
  rfl

@[simp] theorem sliceTo_append (a b : Text) : sliceTo (a ++ b) (size a) = .ok a := by
  rw [sliceTo, upTo_append]
  rfl

/-- Behind what was found at `a`. -/
theorem sliceFrom_after (a m b : Text) : sliceFrom (a ++ m ++ b) (size a + size m) = .ok b := by
  rw [← size_append]
  exact sliceFrom_append _ _

/-- Up to and with what was found at `a`. -/
theorem sliceTo_through {c : Char} (hc : IsAscii c) (a b : Text) : sliceTo (a ++ c :: b) (size a + 1) = .ok (a ++ [c]) := by
  have h := sliceTo_append (a ++ [c]) b
  rwa [← List.append_cons, size_append, size_cons, size_nil, utf8Size_of_ascii hc] at h

theorem sliceFrom_cons {c : Char} (hc : IsAscii c) (s : Text) : sliceFrom (c :: s) 1 = .ok s := by
  have h := sliceFrom_append [c] s
  rwa [size_cons, size_nil, utf8Size_of_ascii hc] at h

end safe

section extract
variable (libs : Libs)

theorem tryBraces_safe (pre rest : Text) : Safe (tryBraces libs (pre ++ rest) (size pre) rest) := by
  induction rest generalizing pre with
  | nil => exact safe_err _
  | cons ch rest ih =>
    have hrest : Safe (tryBraces libs (pre ++ ch :: rest) (size pre + ch.utf8Size) rest) := by
      have h := ih (pre ++ [ch])
      rwa [← List.append_cons, size_append, size_cons, size_nil] at h
    have hcand : sliceTo (pre ++ ch :: rest) (size pre + ch.utf8Size) = .ok (pre ++ [ch]) := by
      have h := sliceTo_append (pre ++ [ch]) rest
      rwa [← List.append_cons, size_append, size_cons, size_nil] at h
    rw [tryBraces]
    split
    · exact hrest
    · rw [hcand]
      refine safe_bind (safe_ok _) fun cand _ => ?_
      split
      · exact safe_ok _
      · exact hrest

theorem extractFrom_safe (slice : Text) : Safe (extractFrom libs slice) := by
  have hbraces : Safe (tryBraces libs slice 0 slice) := tryBraces_safe libs [] slice
  unfold extractFrom
  split
  · rename_i last hlast
    obtain ⟨a, b, rfl, rfl⟩ := findMatchingBrace_eq_some hlast
    rw [sliceTo_through (by decide)]
    refine safe_bind (safe_ok _) fun cand _ => ?_
    split
    · exact safe_ok _
    · exact hbraces
  · exact hbraces

theorem tryExtractJsonObject_safe (s : Text) : Safe (tryExtractJsonObject libs s) := by
  unfold tryExtractJsonObject
  dsimp only
  split
  · exact safe_err _
  · rename_i start hstart
    obtain ⟨a, ch, b, hs, rfl, -, -⟩ := findChar_eq_some hstart
    rw [hs, sliceFrom_append]
    exact extractFrom_safe libs _

theorem fenceContent_safe (rest : Text) : Safe (fenceContent rest) := by
  unfold fenceContent
  split
  · rename_i close hclose
    obtain ⟨a, b, rfl, rfl⟩ := find_eq_some hclose
    rw [List.append_assoc, sliceTo_append]
    exact safe_map (safe_ok _) _
  · exact safe_ok _

theorem jsonFenced_safe (t : Text) : Safe (jsonFenced libs t) := by
  unfold jsonFenced
  split
  · exact safe_ok _
  · rename_i idx hidx
    obtain ⟨a, m, b, rfl, rfl, hm, -⟩ := findCaseInsensitive_jsonFence hidx
    rw [← hm, sliceFrom_after]
    refine safe_bind (safe_ok _) fun rest _ => safe_bind (fenceContent_safe _) fun content _ => ?_
    exact safe_attempt (tryExtractJsonObject_safe libs content)

theorem skipLanguage_safe (rest : Text) : Safe (skipLanguage libs rest) := by
  unfold skipLanguage
  split
  · exact safe_ok _
  split
  · exact safe_ok _
  · rename_i nl hnl
    obtain ⟨a, ch, b, rfl, rfl, hch, -⟩ := findChar_eq_some hnl
    obtain rfl : ch = '\n' := of_decide_eq_true hch
    rw [sliceTo_append]
    refine safe_bind (safe_ok _) fun lang _ => ?_
    have hline := sliceFrom_after a ['\n'] b
    rw [← List.append_cons] at hline
    dsimp only
    split
    · exact safe_map (hline ▸ safe_ok _) _
    · exact safe_ok _

theorem plainFenced_safe (t : Text) : Safe (plainFenced libs t) := by
  unfold plainFenced
  split
  · exact safe_ok _
  · rename_i idx hidx
    obtain ⟨a, b, rfl, rfl⟩ := find_eq_some hidx
    rw [show (3 : ℕ) = size fence from rfl, sliceFrom_after]
    refine safe_bind (safe_ok _) fun rest _ => safe_bind (skipLanguage_safe libs _) fun rest _ =>
      safe_bind (fenceContent_safe _) fun content _ => ?_
    split
    · exact safe_attempt (tryExtractJsonObject_safe libs content)
    · exact safe_ok _

theorem extractJsonBlock_safe (raw : Text) : Safe (extractJsonBlock libs raw) := by
  unfold extractJsonBlock
  dsimp only
  refine safe_bind (jsonFenced_safe libs _) fun fenced _ => ?_
  split
  · exact safe_ok _
  · refine safe_bind (plainFenced_safe libs _) fun fenced _ => ?_
    split
    · exact safe_ok _
    · exact tryExtractJsonObject_safe libs _

end extract

/-! ## Fields -/

section fields
variable {raw key s : Text}

theorem fieldValue_behind {a b : Text} (hraw : raw = a ++ ('"' :: key ++ ['"']) ++ b)
    (hfind : find ('"' :: key ++ ['"']) raw = some (size a)) :
    fieldValue raw key = if (trimStart b).head? = some ':'
      then sliceFrom (trimStart b) 1 >>= fun r => .ok (some (trimStart r)) else .ok none := by
  have hslice : sliceFrom raw (size a + size ('"' :: key ++ ['"'])) = .ok b := by
    rw [hraw]
    exact sliceFrom_after _ _ _
  rw [fieldValue, hfind]
  dsimp only
  rw [hslice, ok_bind]
  rfl

theorem fieldValue_of_find {a b r : Text} (hraw : raw = a ++ ('"' :: key ++ ['"']) ++ b)
    (hfind : find ('"' :: key ++ ['"']) raw = some (size a)) (hcolon : trimStart b = ':' :: r) :
    fieldValue raw key = .ok (some (trimStart r)) := by
  rw [fieldValue_behind hraw hfind, hcolon, if_pos List.head?_cons, sliceFrom_cons (by decide), ok_bind]

/-- What follows the colon after the key, if that is what stands there. -/
theorem fieldValue_cases (raw key : Text) : fieldValue raw key = .ok none ∨ ∃ a b r,
    raw = a ++ ('"' :: key ++ ['"']) ++ b ∧ find ('"' :: key ++ ['"']) raw = some (size a) ∧
      trimStart b = ':' :: r ∧ fieldValue raw key = .ok (some (trimStart r)) := by
  cases hfind : find ('"' :: key ++ ['"']) raw with
  | none => exact .inl (by rw [fieldValue, hfind])
  | some i =>
    obtain ⟨a, b, hraw, rfl⟩ := find_eq_some hfind
    by_cases hcolon : (trimStart b).head? = some ':'
    · right
      obtain ⟨r, hr⟩ : ∃ r, trimStart b = ':' :: r := by
        cases hb : trimStart b with
        | nil => rw [hb] at hcolon; cases hcolon
        | cons c r =>
          rw [hb] at hcolon
          exact ⟨r, by rw [Option.some.inj hcolon]⟩
      exact ⟨a, b, r, hraw, rfl, hr, fieldValue_of_find hraw hfind hr⟩
    · left
      rw [fieldValue_behind hraw hfind, if_neg hcolon]

/-- The string under the key, from behind its opening quote on, has such an escape. -/
def EscapesAt (raw key : Text) : Prop := ∃ s, fieldValue raw key = .ok (some ('"' :: s)) ∧ escapesWide s

theorem stringField_of_quote (h : fieldValue raw key = .ok (some ('"' :: s))) :
    stringField raw key = if escapesWide s then .error .panic else .ok (quoted s) := by
  have hclosing := closingQuote_eq [] s (size s) le_rfl
  rw [List.nil_append, size_nil] at hclosing
  rw [stringField, h, ok_bind]
  dsimp only
  rw [if_pos List.head?_cons, sliceFrom_cons (by decide), ok_bind, hclosing]
  split
  · rfl
  · cases hquoted : quoted s with
    | none => rfl
    | some body =>
      obtain ⟨rest, rfl⟩ := quoted_eq_some hquoted
      rw [Option.map_some, ok_bind]
      dsimp only
      rw [Nat.zero_add, sliceTo_append]
      rfl

theorem stringField_cases (raw key : Text) :
    (∃ s, fieldValue raw key = .ok (some ('"' :: s))) ∨ ¬ EscapesAt raw key ∧ stringField raw key = .ok none := by
  obtain hnone | ⟨a, b, r, -, -, -, hsome⟩ := fieldValue_cases raw key
  · right
    refine ⟨fun ⟨s, hs, _⟩ => ?_, ?_⟩
    · rw [hnone] at hs
      cases hs
    · rw [stringField, hnone]
      rfl
  · by_cases hquote : (trimStart r).head? = some '"'
    · left
      cases hr : trimStart r with
      | nil => rw [hr] at hquote; cases hquote
      | cons c s =>
        rw [hr] at hquote hsome
        exact ⟨s, by rw [hsome, Option.some.inj hquote]⟩
    · right
      refine ⟨fun ⟨s, hs, _⟩ => ?_, ?_⟩
      · rw [hsome] at hs
        rw [Option.some.inj (Except.ok.inj hs)] at hquote
        exact hquote rfl
      · rw [stringField, hsome]
        show (if (trimStart r).head? = some '"' then _ else _) = _
        rw [if_neg hquote]
        rfl

/-- The loop panics at such an escape, and nowhere else. -/
theorem stringField_panic : stringField raw key = .error .panic ↔ EscapesAt raw key := by
  obtain ⟨s, hs⟩ | ⟨hnot, hnone⟩ := stringField_cases raw key
  · rw [stringField_of_quote hs]
    constructor
    · intro h
      split at h
      · rename_i hwide
        exact ⟨s, hs, hwide⟩
      · cases h
    · rintro ⟨s', hs', hwide⟩
      rw [hs] at hs'
      obtain rfl := (List.cons.inj (Option.some.inj (Except.ok.inj hs'))).2
      rw [if_pos hwide]
  · rw [hnone]
    exact ⟨nofun, fun h => absurd h hnot⟩

theorem stringField_error {e : Failure} (h : stringField raw key = .error e) : e = .panic := by
  obtain ⟨s, hs⟩ | ⟨-, hnone⟩ := stringField_cases raw key
  · rw [stringField_of_quote hs] at h
    split at h
    · cases h
      rfl
    · cases h
  · rw [hnone] at h
    cases h

/-- The text of the number: up to what ends it, or to the end of the text. -/
def numberText (s : Text) : Text := s.takeWhile fun c => !endsNumber c

theorem numberText_spec (s : Text) :
    (findChar endsNumber s).getD (size s) = size (numberText s) ∧ sliceTo s (size (numberText s)) = .ok (numberText s) := by
  constructor
  · unfold numberText
    cases h : findChar endsNumber s with
    | none =>
      have hall := findChar_eq_none h
      rw [List.takeWhile_eq_self_iff.2 fun c hc => by simpa using hall c hc, Option.getD_none]
    | some i =>
      obtain ⟨a, ch, b, rfl, rfl, hch, ha⟩ := findChar_eq_some h
      rw [List.takeWhile_append_of_pos fun c hc => by simpa using ha c hc, List.takeWhile_cons_of_neg (by simpa using hch),
        List.append_nil, Option.getD_some]
  · have h := sliceTo_append (numberText s) (s.dropWhile fun c => !endsNumber c)
    rwa [numberText, List.takeWhile_append_dropWhile] at h

theorem numberField_of_value (h : fieldValue raw key = .ok (some s)) :
    numberField raw key = .ok (if numberText s = [] then none else parseDouble (numberText s)) := by
  obtain ⟨hlast, hslice⟩ := numberText_spec s
  rw [numberField, h, ok_bind]
  dsimp only
  rw [hlast]
  by_cases hnone : numberText s = []
  · rw [if_pos hnone, if_pos]
    · rfl
    · exact congrArg size hnone
  · rw [if_neg hnone, if_neg (size_pos hnone).ne', hslice]
    rfl

theorem numberField_isOk (raw key : Text) : ∃ x, numberField raw key = .ok x := by
  obtain hnone | ⟨a, b, r, -, -, -, hsome⟩ := fieldValue_cases raw key
  · exact ⟨none, by rw [numberField, hnone]; rfl⟩
  · exact ⟨_, numberField_of_value hsome⟩

end fields

/-! ## The salvage -/

section salvage
variable (libs : Libs) {raw d : Text} {c : ℚ}

/-- The direction and the confidence that the salvage goes on with. -/
structure Accepts (raw d : Text) (c : ℚ) : Prop where
  direction : stringField raw "direction".toList = .ok (some d)
  word : normalize libs d ∈ tacticalDirections
  confidence : numberField raw "confidence".toList = .ok (some c)
  range : 0 ≤ c ∧ c ≤ 1

/-- The fields of the object that it makes up. -/
def salvaged (d : Text) (c : ℚ) (stop take mult hint : Option ℚ) (reasoning : Option Text) : Json :=
  withField (withField (withField (withField (withField
    (.obj [("direction", .str (String.ofList (normalize libs d))), ("confidence", .float c)])
    "stop_loss_pct" (stop.map .float)) "take_profit_pct" (take.map .float))
    "position_size_multiplier" (mult.map .float)) "entry_price_hint" (hint.map .float))
    "reasoning" ((reasoning.filter (· ≠ [])).map fun s => .str (String.ofList s))

theorem salvageMap_of_accepts (h : Accepts libs raw d c) {stop take mult hint : Option ℚ}
    (hstop : numberField raw "stop_loss_pct".toList = .ok stop)
    (htake : numberField raw "take_profit_pct".toList = .ok take)
    (hmult : numberField raw "position_size_multiplier".toList = .ok mult)
    (hhint : numberField raw "entry_price_hint".toList = .ok hint) :
    salvageMap libs raw = stringField raw "reasoning".toList >>= fun reasoning =>
      .ok (some (salvaged libs d c stop take mult hint reasoning)) := by
  rw [salvageMap, h.direction, ok_bind]
  dsimp only
  rw [if_neg (not_not.2 h.word), h.confidence, ok_bind]
  dsimp only
  rw [if_neg (not_not.2 h.range), hstop, ok_bind, htake, ok_bind, hmult, ok_bind, hhint, ok_bind]
  rfl

theorem salvageMap_cases (raw : Text) :
    EscapesAt raw "direction".toList ∧ salvageMap libs raw = .error .panic ∨
      ¬ EscapesAt raw "direction".toList ∧ (¬ ∃ d c, Accepts libs raw d c) ∧ salvageMap libs raw = .ok none ∨
      ¬ EscapesAt raw "direction".toList ∧ ∃ d c, Accepts libs raw d c := by
  cases hdir : stringField raw "direction".toList with
  | error e =>
    rw [stringField_error hdir] at hdir
    left
    exact ⟨stringField_panic.1 hdir, by rw [salvageMap, hdir]; rfl⟩
  | ok direction =>
    right
    have hescapes : ¬ EscapesAt raw "direction".toList := fun h => by
      rw [stringField_panic.2 h] at hdir
      cases hdir
    by_cases haccepts : ∃ d c, Accepts libs raw d c
    · exact .inr ⟨hescapes, haccepts⟩
    refine .inl ⟨hescapes, haccepts, ?_⟩
    rw [salvageMap, hdir, ok_bind]
    cases direction with
    | none => rfl
    | some d =>
      dsimp only
      by_cases hword : normalize libs d ∈ tacticalDirections
      · rw [if_neg (not_not.2 hword)]
        obtain ⟨confidence, hconf⟩ := numberField_isOk raw "confidence".toList
        rw [hconf, ok_bind]
        cases confidence with
        | none => rfl
        | some c =>
          dsimp only
          rw [if_pos fun hrange => haccepts ⟨d, c, hdir, hword, hconf, hrange⟩]
          rfl
      · rw [if_pos hword]
        rfl

/-- The strings that the salvage looks through: the direction, and with an accepted direction and confidence the
reasoning. One of them has a backslash before a character of more than one byte. -/
def SalvageEscapes (raw : Text) : Prop :=
  EscapesAt raw "direction".toList ∨ (∃ d c, Accepts libs raw d c) ∧ EscapesAt raw "reasoning".toList

theorem salvageMap_panic : salvageMap libs raw = .error .panic ↔ SalvageEscapes libs raw := by
  obtain ⟨hescapes, hpanic⟩ | ⟨hescapes, haccepts, hnone⟩ | ⟨hescapes, d, c, haccepts⟩ := salvageMap_cases libs raw
  · exact ⟨fun _ => .inl hescapes, fun _ => hpanic⟩
  · rw [hnone]
    exact ⟨nofun, fun h => h.elim (absurd · hescapes) fun h => absurd h.1 haccepts⟩
  · obtain ⟨stop, hstop⟩ := numberField_isOk raw "stop_loss_pct".toList
    obtain ⟨take, htake⟩ := numberField_isOk raw "take_profit_pct".toList
    obtain ⟨mult, hmult⟩ := numberField_isOk raw "position_size_multiplier".toList
    obtain ⟨hint, hhint⟩ := numberField_isOk raw "entry_price_hint".toList
    rw [salvageMap_of_accepts libs haccepts hstop htake hmult hhint]
    constructor
    · intro h
      cases hreasoning : stringField raw "reasoning".toList with
      | ok reasoning => rw [hreasoning] at h; cases h
      | error e =>
        rw [stringField_error hreasoning] at hreasoning
        exact .inr ⟨⟨d, c, haccepts⟩, stringField_panic.1 hreasoning⟩
    · rintro (h | ⟨-, h⟩)
      · exact absurd h hescapes
      · rw [stringField_panic.2 h]
        rfl

theorem salvage_panic : salvage libs raw = .error .panic ↔ SalvageEscapes libs raw := by
  rw [← salvageMap_panic, salvage]
  cases salvageMap libs raw with
  | ok v => exact ⟨nofun, nofun⟩
  | error e =>
    constructor
    · intro h
      cases h
      rfl
    · intro h
      cases h
      rfl

end salvage

/-! ## The decisions -/

section decisions
variable (libs : Libs)

theorem fromText_safe (s : Text) : Safe (fromText libs s) := by
  unfold fromText
  split
  · exact safe_ok _
  · exact safe_fail _

theorem requireWord_safe (key : String) (words : List Text) (v : Json) : Safe (requireWord libs key words v) := by
  unfold requireWord
  split
  · exact safe_fail _
  · dsimp only
    split
    · exact safe_ok _
    · exact safe_fail _

theorem tacticalOf_safe (v : Json) : Safe (tacticalOf libs v) := by
  refine safe_bind (requireWord_safe libs _ _ v) fun dir _ => safe_bind ?_ fun conf _ => safe_bind ?_ fun _ _ => safe_ok _
  · unfold requireConfidence
    split
    · exact safe_fail _
    · split
      · exact safe_fail _
      · exact safe_ok _
  · unfold clampMultiplier
    split
    · split
      · exact safe_fail _
      · exact safe_ok _
    · exact safe_ok _

theorem tacticalText_panic {raw : Text} : tacticalText libs raw = .error .panic ↔
    (¬ ∃ s, extractJsonBlock libs raw = .ok s) ∧ SalvageEscapes libs raw := by
  have hsafe := extractJsonBlock_safe libs raw
  unfold tacticalText
  cases hextract : extractJsonBlock libs raw with
  | ok s => exact ⟨nofun, fun h => absurd ⟨s, rfl⟩ h.1⟩
  | error e =>
    cases e with
    | panic => exact absurd hextract hsafe
    | err e =>
      have hnone : ¬ ∃ s, (.error (.err e) : Except Failure Text) = .ok s := nofun
      rw [← salvage_panic]
      refine Iff.trans ?_ (and_iff_right hnone).symm
      cases hsalvage : salvage libs raw with
      | ok found => cases found <;> exact ⟨nofun, nofun⟩
      | error e' =>
        cases e' with
        | err e' => exact ⟨nofun, nofun⟩
        | panic => exact ⟨fun _ => rfl, fun _ => rfl⟩

/-- **The parsers** of operational and portfolio decisions never panic. That of tactical decisions does not exactly where
an object can be extracted or no string that the salvage looks through has a backslash before a character of more than
one byte. -/
theorem parse_panics_iff :
    (∀ raw, parseOperationalDecision libs raw ≠ .error .panic) ∧ (∀ raw, parsePortfolioDecision libs raw ≠ .error .panic) ∧
      ∀ raw, parseTacticalDecision libs raw ≠ .error .panic ↔
        (∃ s, extractJsonBlock libs raw = .ok s) ∨ ¬ SalvageEscapes libs raw := by
  refine ⟨fun raw => ?_, fun raw => ?_, fun raw => ?_⟩
  · exact safe_bind (extractJsonBlock_safe libs raw) fun s _ => safe_bind (fromText_safe libs s) fun v _ =>
      safe_bind (requireWord_safe libs _ _ v) fun action _ => safe_ok _
  · exact safe_bind (extractJsonBlock_safe libs raw) fun s _ => fromText_safe libs s
  · have hpanic : parseTacticalDecision libs raw = .error .panic ↔ tacticalText libs raw = .error .panic := by
      constructor
      · intro h
        by_contra htext
        exact safe_bind htext (fun s _ => safe_bind (fromText_safe libs s) fun v _ => tacticalOf_safe libs v) h
      · intro h
        rw [parseTacticalDecision, h]
        rfl
    rw [ne_eq, hpanic, tacticalText_panic, not_and_or, not_not]

end decisions

/-- A reply that breaks off in the direction, behind an escaped letter with an accent. -/
def accented : Text := ['{', '"'] ++ "direction".toList ++ ['"', ':', '"', '\\', 'é']

theorem accented_panics : ¬ ∃ libs : Libs, parseTacticalDecision libs accented ≠ .error .panic := by
  rintro ⟨libs, h⟩
  exact h rfl

end Qtss.Ai.Parser
