import Qtss.Json
import Qtss.Lib.Float64
import Qtss.Lib.Utf8
/-
# Decisions out of the text of a model (`qtss-ai/src/parser.rs`)

| here | there |
| --- | --- |
| `Libs`                  | `serde_json::from_str::<Value>` and `Value::to_string`, and `str::to_lowercase` |
| `sliceFrom`, `sliceTo`  | `&s[i..]`, `&s[..i]`, which panic off a character boundary |
| `findCaseInsensitive`   | `find_case_insensitive` (:28), over bytes |
| `findMatchingBrace`     | `find_matching_brace` (:115), over bytes; `depth` has no bound |
| `tryBraces`, `extractFrom`, `tryExtractJsonObject` | `try_extract_json_object` (:46): its loop, from `slice` on, and all of it |
| `jsonFenced`, `plainFenced`, `extractJsonBlock` | the two fences of `extract_json_block` (:73), and all of it |
| `fieldValue`            | what `parse_json_string_field` and `parse_json_number_field` begin with |
| `parseDouble`, `asF64`  | `str::parse::<f64>` and `Value::as_f64`, rounded to the nearest double |
| `closingQuote`, `stringField`, `numberField` | :160-180, :147, :185 |
| `salvageMap`, `salvage` | `salvage_truncated_tactical_json` (:203), up to its map and with `to_string` |
| `parseTacticalDecision`, `parseOperationalDecision`, `parsePortfolioDecision` | :267, :321, :315 |

Texts are lists of characters, and offsets into them count bytes. An `f64` that is infinite or no number ends, as `none`
does, in an absent field. What `from_str` makes of the digits of a float is left to it.
-/

namespace Qtss.Ai.Parser
open Utf8
open Execution.Dry (isWhitespace)

abbrev Text := List Char

inductive AiError where
  | parse (message : String)
deriving DecidableEq, Repr

inductive Failure where
  | err (e : AiError)
  | panic
deriving DecidableEq, Repr

structure Libs where
  fromStr : Text → Except String Json
  toJsonText : Json → Text
  toLowercase : Text → Text

def tacticalDirections : List Text :=
  ["strong_buy", "buy", "neutral", "sell", "strong_sell", "no_trade"].map String.toList

def operationalActions : List Text :=
  ["keep", "tighten_stop", "widen_stop", "activate_trailing", "deactivate_trailing", "partial_close", "full_close",
    "add_to_position"].map String.toList

/-! ## Texts -/

def trimStart (s : Text) : Text := s.dropWhile isWhitespace

def trimEnd (s : Text) : Text := s.rdropWhile isWhitespace

def trim (s : Text) : Text := trimEnd (trimStart s)

def orPanic {α : Type} : Option α → Except Failure α
  | some a => .ok a
  | none => .error .panic

def sliceFrom (s : Text) (i : ℕ) : Except Failure Text := orPanic (dropTo s i)

def sliceTo (s : Text) (i : ℕ) : Except Failure Text := orPanic (upTo s i)

def toAsciiLowercase (b : UInt8) : UInt8 := if 65 ≤ b ∧ b ≤ 90 then b + 32 else b

def findCaseInsensitive (haystack needle : Text) : Option ℕ :=
  if needle.isEmpty || size haystack < size needle then none
  else
    let nb := bytes needle
    let hb := bytes haystack
    (List.range (hb.length - nb.length + 1)).find? fun i =>
      ((hb.drop i).take nb.length).map toAsciiLowercase = nb.map toAsciiLowercase

/-! ## The braces -/

structure BraceState where
  depth : ℤ
  inStr : Bool
  esc : Bool
deriving DecidableEq

/-- The body of the loop; none where it returns. -/
def braceStep (st : BraceState) (b : UInt8) : Option BraceState :=
  if st.inStr then
    if st.esc then some { st with esc := false }
    else if b = 0x5C then some { st with esc := true }
    else if b = 0x22 then some { st with inStr := false }
    else some st
  else if b = 0x22 then some { st with inStr := true }
  else if b = 0x7B then some { st with depth := st.depth + 1 }
  else if b = 0x7D then
    if st.depth - 1 = 0 then none else some { st with depth := st.depth - 1 }
  else some st

def findMatchingBrace (s : Text) : Option ℕ := scan braceStep ⟨0, false, false⟩ 0 (bytes s)

section libs
variable (libs : Libs)

/-- The loop over `char_indices`, from the character at `i` on. -/
def tryBraces (slice : Text) : ℕ → Text → Except Failure Text
  | _, [] => .error (.err (.parse "unbalanced JSON braces"))
  | i, ch :: rest =>
    if ch ≠ '}' then tryBraces slice (i + ch.utf8Size) rest
    else do
      let cand ← sliceTo slice (i + ch.utf8Size)
      match libs.fromStr cand with
      | .ok (.obj _) => return cand
      | _ => tryBraces slice (i + ch.utf8Size) rest

/-- From the first brace on. -/
def extractFrom (slice : Text) : Except Failure Text :=
  match findMatchingBrace slice with
  | some last => do
    let cand ← sliceTo slice (last + 1)
    if (libs.fromStr cand).isOk then return cand else tryBraces libs slice 0 slice
  | none => tryBraces libs slice 0 slice

def tryExtractJsonObject (s : Text) : Except Failure Text :=
  let s := trim s
  match findChar (· = '{') s with
  | none => .error (.err (.parse "no JSON object start"))
  | some start => sliceFrom s start >>= extractFrom libs

/-! ## The fences -/

/-- `if let Ok(s)` -/
def attempt {α : Type} : Except Failure α → Except Failure (Option α)
  | .ok s => .ok (some s)
  | .error (.err _) => .ok none
  | .error .panic => .error .panic

def fence : Text := "```".toList

def jsonFence : Text := "```json".toList

/-- Up to the closing fence, if there is one. -/
def fenceContent (rest : Text) : Except Failure Text :=
  match find fence rest with
  | some close => trim <$> sliceTo rest close
  | none => .ok (trim rest)

def jsonFenced (t : Text) : Except Failure (Option Text) :=
  match findCaseInsensitive t jsonFence with
  | none => .ok none
  | some idx => do
    let rest ← sliceFrom t (idx + size jsonFence)
    let content ← fenceContent (trimStart rest)
    attempt (tryExtractJsonObject libs content)

/-- The optional language line. -/
def skipLanguage (rest : Text) : Except Failure Text :=
  if rest.head? = some '{' then .ok rest
  else
    match findChar (· = '\n') rest with
    | none => .ok rest
    | some nl => do
      let lang := libs.toLowercase (trim (← sliceTo rest nl))
      if lang = [] ∨ lang = "json".toList then trimStart <$> sliceFrom rest (nl + 1) else return rest

def plainFenced (t : Text) : Except Failure (Option Text) :=
  match find fence t with
  | none => .ok none
  | some idx => do
    let rest ← sliceFrom t (idx + 3)
    let rest ← skipLanguage libs (trimStart rest)
    let content ← fenceContent rest
    if '{' ∈ content then attempt (tryExtractJsonObject libs content) else return none

def extractJsonBlock (raw : Text) : Except Failure Text := do
  let t := trim raw
  match ← jsonFenced libs t with
  | some s => return s
  | none =>
    match ← plainFenced libs t with
    | some s => return s
    | none => tryExtractJsonObject libs t

/-! ## Fields of a text that breaks off -/

/-- The text from the value of the key on, where a colon follows its first occurrence. -/
def fieldValue (raw key : Text) : Except Failure (Option Text) :=
  let needle := '"' :: key ++ ['"']
  match find needle raw with
  | none => .ok none
  | some idx => do
    let s := trimStart (← sliceFrom raw (idx + size needle))
    if s.head? = some ':' then return some (trimStart (← sliceFrom s 1)) else return none

/-- The loop; each turn goes on by a byte or more. -/
def closingQuote (s : Text) : ℕ → ℕ → Bool → Except Failure (Option ℕ)
  | 0, _, _ => .ok none
  | turns + 1, i, esc =>
    match (bytes s)[i]? with
    | none => .ok none
    | some b =>
      if esc then closingQuote s turns (i + 1) false
      else if b = 0x5C then closingQuote s turns (i + 1) true
      else if b = 0x22 then .ok (some i)
      else do
        match ← sliceFrom s i with
        | [] => return none
        | ch :: _ => closingQuote s turns (i + ch.utf8Size) false

def stringField (raw key : Text) : Except Failure (Option Text) := do
  match ← fieldValue raw key with
  | none => return none
  | some s =>
    if s.head? = some '"' then
      let s ← sliceFrom s 1
      match ← closingQuote s (size s) 0 false with
      | some i => some <$> sliceTo s i
      | none => return none
    else return none

def isAsciiWhitespace (c : Char) : Bool := c ∈ [' ', '\t', '\n', '\x0C', '\r']

/-- What ends a number. -/
def endsNumber (c : Char) : Bool := isAsciiWhitespace c || c = ',' || c = '}'

def finite : F64 → Option ℚ
  | .fin q => some q
  | _ => none

def parseDouble (s : Text) : Option ℚ := (parseF64 (String.ofList s)).bind fun q => finite (F64.round q)

def asF64 : Json → Option ℚ
  | .int n => finite (F64.round n)
  | v => v.asF64

@[simp] theorem asF64_float (q : ℚ) : asF64 (.float q) = some q := rfl

def numberField (raw key : Text) : Except Failure (Option ℚ) := do
  match ← fieldValue raw key with
  | none => return none
  | some s =>
    let last := (findChar endsNumber s).getD (size s)
    if last = 0 then return none
    else return parseDouble (← sliceTo s last)

/-- `trim().to_lowercase().replace(' ', "_")` -/
def normalize (d : Text) : Text := (libs.toLowercase (trim d)).map fun c => if c = ' ' then '_' else c

/-- With the field, if there is a value. -/
def withField (v : Json) (key : String) : Option Json → Json
  | some x => v.set key x
  | none => v

/-- The map of the salvage. -/
def salvageMap (raw : Text) : Except Failure (Option Json) := do
  match ← stringField raw "direction".toList with
  | none => return none
  | some directionRaw =>
    let direction := normalize libs directionRaw
    if direction ∉ tacticalDirections then return none
    else
      match ← numberField raw "confidence".toList with
      | none => return none
      | some confidence =>
        if ¬ (0 ≤ confidence ∧ confidence ≤ 1) then return none
        else
          let map := Json.obj [("direction", .str (String.ofList direction)), ("confidence", .float confidence)]
          let map := withField map "stop_loss_pct" ((← numberField raw "stop_loss_pct".toList).map .float)
          let map := withField map "take_profit_pct" ((← numberField raw "take_profit_pct".toList).map .float)
          let map := withField map "position_size_multiplier"
            ((← numberField raw "position_size_multiplier".toList).map .float)
          let map := withField map "entry_price_hint" ((← numberField raw "entry_price_hint".toList).map .float)
          let map := withField map "reasoning"
            (((← stringField raw "reasoning".toList).filter (· ≠ [])).map fun s => .str (String.ofList s))
          return some map

def salvage (raw : Text) : Except Failure (Option Text) := Option.map libs.toJsonText <$> salvageMap libs raw

/-! ## The decisions -/

def fail {α : Type} (message : String) : Except Failure α := .error (.err (.parse message))

def fromText (s : Text) : Except Failure Json :=
  match libs.fromStr s with
  | .ok v => .ok v
  | .error message => fail message

/-- `require_direction` and `require_action`: one of the words, under the key. -/
def requireWord (key : String) (words : List Text) (v : Json) : Except Failure Text :=
  match (v.get key).bind Json.asStr with
  | none => fail ("missing " ++ key)
  | some d =>
    let d := normalize libs d.toList
    if d ∈ words then .ok d else fail ("invalid " ++ key ++ ": " ++ String.ofList d)

def requireDirection : Json → Except Failure Text := requireWord libs "direction" tacticalDirections

def requireAction : Json → Except Failure Text := requireWord libs "action" operationalActions

def requireConfidence (v : Json) : Except Failure ℚ :=
  match (v.get "confidence").bind asF64 with
  | none => fail "missing confidence"
  | some c => if ¬ (0 ≤ c ∧ c ≤ 1) then fail "confidence must be 0.0..=1.0" else .ok c

def multiplier (v : Json) : Option ℚ := (v.get "position_size_multiplier").bind asF64

def clampMultiplier (v : Json) : Except Failure Unit :=
  match multiplier v with
  | some m => if ¬ (0 ≤ m ∧ m ≤ 2) then fail "position_size_multiplier must be 0.0..=2.0" else .ok ()
  | none => .ok ()

/-- The number under the key, as the output has it. -/
def floatField (v : Json) (key : String) : Option Json := ((v.get key).bind asF64).map .float

def stringValue (v : Json) (key : String) : Option Json := ((v.get key).bind Json.asStr).map .str

/-- What the value gives for a decision, once the text is read. -/
def tacticalOf (v : Json) : Except Failure Json := do
  let dir ← requireDirection libs v
  let conf ← requireConfidence v
  clampMultiplier v
  let out := Json.obj [("direction", .str (String.ofList dir)), ("confidence", .float conf),
    ("position_size_multiplier", .float ((multiplier v).getD 1))]
  let out := withField out "entry_price_hint" (floatField v "entry_price_hint")
  let out := withField out "stop_loss_pct" (floatField v "stop_loss_pct")
  let out := withField out "take_profit_pct" (floatField v "take_profit_pct")
  return withField out "reasoning" (stringValue v "reasoning")

/-- The object of the text, or the fields that can be made out. -/
def tacticalText (raw : Text) : Except Failure Text :=
  match extractJsonBlock libs raw with
  | .error (.err e) => do
    match ← salvage libs raw with
    | some s => return s
    | none => .error (.err e)
  | r => r

def parseTacticalDecision (raw : Text) : Except Failure Json := do
  let s ← tacticalText libs raw
  let v ← fromText libs s
  tacticalOf libs v

def parsePortfolioDecision (raw : Text) : Except Failure Json := do
  let s ← extractJsonBlock libs raw
  fromText libs s

def operationalKeys : List String :=
  ["new_stop_loss_pct", "new_take_profit_pct", "trailing_callback_pct", "partial_close_pct", "reasoning"]

def parseOperationalDecision (raw : Text) : Except Failure Json := do
  let s ← extractJsonBlock libs raw
  let v ← fromText libs s
  let action ← requireAction libs v
  let out := operationalKeys.foldl (fun out key => withField out key (v.get key))
    (Json.obj [("action", .str (String.ofList action))])
  return withField out "open_position_ref" (stringValue v "open_position_ref")

end libs

end Qtss.Ai.Parser
