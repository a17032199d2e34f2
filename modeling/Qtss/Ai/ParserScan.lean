import Mathlib.Data.Bool.AllAny
import Qtss.Ai.Parser
/-
# What the scanners of the parser find

The parser looks for fences, braces and quotes in bytes and cuts characters. What it looks for is below 128: a fence or a
brace that is found is one of the text (`findCaseInsensitive_jsonFence`, `findMatchingBrace_eq`), where it can be cut.
The loop of `parse_json_string_field` goes on by one byte behind a backslash, and so into the middle of a character of
more than one (`closingQuote_eq`).
-/

namespace Qtss.Ai.Parser
open Utf8

/-! ## Bytes below 128 -/

theorem ofNat_eq_iff {c : Char} (hc : IsAscii c) (k : Char) (hk : IsAscii k) :
    UInt8.ofNat c.toNat = UInt8.ofNat k.toNat ↔ c = k := by
  constructor
  · intro h
    have h := congrArg UInt8.toNat h
    simp only [UInt8.toNat_ofNat'] at h
    rw [Nat.mod_eq_of_lt (Nat.lt_trans hc (by decide)), Nat.mod_eq_of_lt (Nat.lt_trans hk (by decide))] at h
    exact Char.toNat_inj.1 h
  · rintro rfl
    rfl

theorem toAsciiLowercase_of_le {b : UInt8} (h : 128 ≤ b.toNat) : toAsciiLowercase b = b := by
  rw [toAsciiLowercase, if_neg]
  rintro ⟨-, hle⟩
  have hle : b.toNat ≤ 90 := UInt8.le_iff_toNat_le.1 hle
  omega

theorem toNat_lt_of_lowercase {b x : UInt8} (hx : x.toNat < 128) (h : toAsciiLowercase b = toAsciiLowercase x) :
    b.toNat < 128 := by
  by_contra hb
  rw [toAsciiLowercase_of_le (not_lt.1 hb)] at h
  have hlower : (toAsciiLowercase x).toNat < 128 := by
    unfold toAsciiLowercase
    split
    · rename_i hupper
      have hle : x.toNat ≤ 90 := UInt8.le_iff_toNat_le.1 hupper.2
      rw [UInt8.toNat_add]
      have : (32 : UInt8).toNat = 32 := rfl
      omega
    · exact hx
  rw [← h] at hlower
  exact hb hlower

/-- What is found in place of `needle` is a text. -/
theorem findCaseInsensitive_eq_some {s needle : Text} {i : ℕ} (hneedle : ∀ x ∈ bytes needle, x.toNat < 128)
    (h : findCaseInsensitive s needle = some i) :
    ∃ (a m b : Text) (l : List UInt8), s = a ++ m ++ b ∧ i = size a ∧ m.map Char.toNat = l.map UInt8.toNat ∧
      l.map toAsciiLowercase = (bytes needle).map toAsciiLowercase := by
  unfold findCaseInsensitive at h
  split at h
  · cases h
  rename_i hguard
  simp only [Bool.or_eq_true, List.isEmpty_iff, decide_eq_true_eq, not_or, not_lt] at hguard
  obtain ⟨hne, hsize⟩ := hguard
  dsimp only at h
  have hmatch := List.find?_some h
  rw [decide_eq_true_eq] at hmatch
  have hi : i < (bytes s).length - (bytes needle).length + 1 := List.mem_range.1 (List.mem_of_find?_eq_some h)
  have hle : (bytes needle).length ≤ (bytes s).length := hsize
  have hlength : (((bytes s).drop i).take (bytes needle).length).length = (bytes needle).length := by
    rw [List.length_take, List.length_drop]
    omega
  have hsplit : bytes s = (bytes s).take i ++ ((bytes s).drop i).take (bytes needle).length ++
      ((bytes s).drop i).drop (bytes needle).length := by
    rw [List.append_assoc, List.take_append_drop, List.take_append_drop]
  have hsmall : ∀ x ∈ ((bytes s).drop i).take (bytes needle).length, x.toNat < 128 := by
    intro x hx
    have hlower : toAsciiLowercase x ∈ (bytes needle).map toAsciiLowercase := hmatch ▸ List.mem_map_of_mem hx
    obtain ⟨y, hy, hxy⟩ := List.mem_map.1 hlower
    exact toNat_lt_of_lowercase (hneedle y hy) hxy.symm
  have hsome : ((bytes s).drop i).take (bytes needle).length ≠ [] := by
    intro hnil
    rw [hnil, List.length_nil] at hlength
    exact absurd (size_pos hne) (by rw [size, ← hlength]; exact lt_irrefl 0)
  obtain ⟨a, m, b, rfl, ha, hm⟩ := bytes_split_run hsplit hsome hsmall
  refine ⟨a, m, b, _, rfl, ?_, hm, hmatch⟩
  rw [size, ha, List.length_take]
  omega

theorem size_of_ascii {m : Text} (h : ∀ c ∈ m, IsAscii c) : size m = m.length := by
  induction m with
  | nil => rfl
  | cons c m ih =>
    rw [size_cons, utf8Size_of_ascii (h c List.mem_cons_self), ih fun x hx => h x (List.mem_cons_of_mem _ hx),
      List.length_cons, Nat.add_comm]

/-- **The fence**: in capitals or not, it is seven characters without a brace. -/
theorem findCaseInsensitive_jsonFence {s : Text} {i : ℕ} (h : findCaseInsensitive s jsonFence = some i) :
    ∃ a m b, s = a ++ m ++ b ∧ i = size a ∧ size m = size jsonFence ∧ '{' ∉ m := by
  have hascii : ∀ y ∈ bytes jsonFence, y.toNat < 128 ∧ toAsciiLowercase y ≠ toAsciiLowercase 0x7B :=
    List.all_iff_forall_prop.1 (by decide)
  obtain ⟨a, m, b, l, rfl, rfl, hml, hl⟩ := findCaseInsensitive_eq_some (fun y hy => (hascii y hy).1) h
  have hsmall : ∀ x ∈ l, x.toNat < 128 ∧ x.toNat ≠ '{'.toNat := by
    intro x hx
    have hlower : toAsciiLowercase x ∈ (bytes jsonFence).map toAsciiLowercase := hl ▸ List.mem_map_of_mem hx
    obtain ⟨y, hy, hxy⟩ := List.mem_map.1 hlower
    refine ⟨toNat_lt_of_lowercase (hascii y hy).1 hxy.symm, fun hbrace => ?_⟩
    obtain rfl : x = 0x7B := UInt8.toNat_inj.1 hbrace
    exact (hascii y hy).2 hxy
  have hmem : ∀ c ∈ m, ∃ x ∈ l, x.toNat = c.toNat := fun c hc =>
    List.mem_map.1 (hml ▸ List.mem_map_of_mem hc)
  refine ⟨a, m, b, rfl, rfl, ?_, fun hbrace => ?_⟩
  · have hlength : m.length = 7 := by
      have h₁ := congrArg List.length hml
      have h₂ := congrArg List.length hl
      simp only [List.length_map] at h₁ h₂
      exact h₁.trans h₂
    rw [size_of_ascii, hlength]
    · rfl
    · intro c hc
      obtain ⟨x, hx, hxc⟩ := hmem c hc
      have hlt := (hsmall x hx).1
      rwa [hxc] at hlt
  · obtain ⟨x, hx, hxc⟩ := hmem _ hbrace
    exact (hsmall x hx).2 hxc

/-! ## Braces -/

/-- `braceStep` over characters. -/
def braceChar (st : BraceState) (c : Char) : Option BraceState :=
  if st.inStr then
    if st.esc then some { st with esc := false }
    else if c = '\\' then some { st with esc := true }
    else if c = '"' then some { st with inStr := false }
    else some st
  else if c = '"' then some { st with inStr := true }
  else if c = '{' then some { st with depth := st.depth + 1 }
  else if c = '}' then
    if st.depth - 1 = 0 then none else some { st with depth := st.depth - 1 }
  else some st

/-- What a character above 128 leaves of the state. -/
def BraceState.settle (st : BraceState) : BraceState := if st.inStr then { st with esc := false } else st

theorem BraceState.settle_settle (st : BraceState) : st.settle.settle = st.settle := by
  obtain ⟨depth, inStr, esc⟩ := st
  cases inStr <;> rfl

theorem braceStep_wide (st : BraceState) {b : UInt8} (hb : 128 ≤ b.toNat) : braceStep st b = some st.settle := by
  have hne : ∀ k : UInt8, k.toNat < 128 → b ≠ k := by
    rintro k hk rfl
    omega
  obtain ⟨depth, inStr, esc⟩ := st
  cases inStr <;> cases esc <;>
    simp [braceStep, BraceState.settle, hne 0x5C (by decide), hne 0x22 (by decide), hne 0x7B (by decide),
      hne 0x7D (by decide)]

theorem foldlM_braceStep_wide (st : BraceState) {l : List UInt8} (hl : ∀ b ∈ l, 128 ≤ b.toNat) :
    l.foldlM braceStep st.settle = some st.settle := by
  induction l with
  | nil => rfl
  | cons b l ih =>
    rw [List.foldlM_cons, braceStep_wide _ (hl b List.mem_cons_self), BraceState.settle_settle]
    exact ih fun x hx => hl x (List.mem_cons_of_mem _ hx)

theorem mirrors_brace : Mirrors braceStep braceChar where
  ascii st c hc := by
    have hslash : UInt8.ofNat c.toNat = 0x5C ↔ c = '\\' := ofNat_eq_iff hc '\\' (by decide)
    have hquote : UInt8.ofNat c.toNat = 0x22 ↔ c = '"' := ofNat_eq_iff hc '"' (by decide)
    have hopen : UInt8.ofNat c.toNat = 0x7B ↔ c = '{' := ofNat_eq_iff hc '{' (by decide)
    have hclose : UInt8.ofNat c.toNat = 0x7D ↔ c = '}' := ofNat_eq_iff hc '}' (by decide)
    simp only [braceStep, braceChar, hslash, hquote, hopen, hclose]
  wide st c hc := by
    have hne : ∀ k : Char, IsAscii k → c ≠ k := by
      rintro k hk rfl
      exact hc hk
    refine ⟨st.settle, ?_, fun l hl hwide => ?_⟩
    · obtain ⟨depth, inStr, esc⟩ := st
      cases inStr <;> cases esc <;>
        simp [braceChar, BraceState.settle, hne '\\' (by decide), hne '"' (by decide), hne '{' (by decide),
          hne '}' (by decide)]
    · obtain ⟨b, l, rfl⟩ := List.exists_cons_of_ne_nil hl
      rw [List.foldlM_cons, braceStep_wide st (hwide b List.mem_cons_self)]
      exact foldlM_braceStep_wide st fun x hx => hwide x (List.mem_cons_of_mem _ hx)

theorem findMatchingBrace_eq (s : Text) : findMatchingBrace s = stop braceChar ⟨0, false, false⟩ s := by
  rw [findMatchingBrace, scan_bytes mirrors_brace]
  cases stop braceChar ⟨0, false, false⟩ s <;> simp

theorem findMatchingBrace_eq_some {s : Text} {i : ℕ} (h : findMatchingBrace s = some i) :
    ∃ a b, s = a ++ '}' :: b ∧ i = size a := by
  rw [findMatchingBrace_eq] at h
  obtain ⟨a, c, b, st, rfl, rfl, -, hstop⟩ := stop_eq_some h
  refine ⟨a, b, ?_, rfl⟩
  unfold braceChar at hstop
  split_ifs at hstop with _ _ _ _ _ _ hc
  rw [hc]

/-! ## Quotes -/

/-- A backslash before a character of more than one byte comes before the closing quote. -/
def escapesWide : Text → Bool
  | '\\' :: c :: rest => !decide (IsAscii c) || escapesWide rest
  | '"' :: _ => false
  | _ :: rest => escapesWide rest
  | [] => false

/-- What stands before the closing quote. -/
def quoted : Text → Option Text
  | '\\' :: c :: rest => (quoted rest).map ('\\' :: c :: ·)
  | '"' :: _ => some []
  | c :: rest => (quoted rest).map (c :: ·)
  | [] => none

theorem quoted_eq_some {s body : Text} (h : quoted s = some body) : ∃ rest, s = body ++ '"' :: rest := by
  induction s using quoted.induct generalizing body with
  | case1 c rest ih =>
    rw [quoted] at h
    obtain ⟨body, hbody, rfl⟩ := Option.map_eq_some_iff.1 h
    obtain ⟨rest', rfl⟩ := ih hbody
    exact ⟨rest', rfl⟩
  | case2 rest =>
    rw [quoted] at h
    obtain rfl := Option.some.inj h
    exact ⟨rest, rfl⟩
  | case3 c rest hslash hquote ih =>
    rw [quoted.eq_3 _ _ hslash hquote] at h
    obtain ⟨body, hbody, rfl⟩ := Option.map_eq_some_iff.1 h
    obtain ⟨rest', rfl⟩ := ih hbody
    exact ⟨rest', rfl⟩
  | case4 => cases h

section closing
variable {pre rest : Text} {c : Char} {turns : ℕ}

theorem bytes_getElem? {k : ℕ} (hk : k < c.utf8Size) :
    (bytes (pre ++ c :: rest))[size pre + k]? = (String.utf8EncodeChar c)[k]? := by
  rw [bytes_append, bytes_cons, size, List.getElem?_append_right (Nat.le_add_right _ _), Nat.add_sub_cancel_left,
    List.getElem?_append_left (by rwa [String.length_utf8EncodeChar])]

theorem bytes_getElem?_ascii (hc : IsAscii c) :
    (bytes (pre ++ c :: rest))[size pre]? = some (UInt8.ofNat c.toNat) := by
  have h : (bytes (pre ++ c :: rest))[size pre + 0]? = _ := bytes_getElem? c.utf8Size_pos
  rwa [Nat.add_zero, encode_of_ascii hc] at h

theorem bytes_getElem?_wide (pre rest : Text) (hc : ¬ IsAscii c) {k : ℕ} (hk : k < c.utf8Size) :
    ∃ b, (bytes (pre ++ c :: rest))[size pre + k]? = some b ∧ b ≠ 0x5C ∧ b ≠ 0x22 := by
  rw [bytes_getElem? hk]
  have hk : k < (String.utf8EncodeChar c).length := by rwa [String.length_utf8EncodeChar]
  refine ⟨_, List.getElem?_eq_getElem hk, ?_, ?_⟩ <;> intro hb <;>
    exact absurd (le_of_mem_encode hc (List.getElem_mem hk)) (by rw [hb]; decide)

/-- Behind a backslash the loop goes on by a byte. -/
theorem closingQuote_escape (hturns : size (c :: rest) ≤ turns) :
    closingQuote (pre ++ c :: rest) turns (size pre) true =
      if IsAscii c then closingQuote (pre ++ [c] ++ rest) (turns - 1) (size (pre ++ [c])) false else .error .panic := by
  rw [size_cons] at hturns
  have hpos := c.utf8Size_pos
  obtain ⟨turns, rfl⟩ := Nat.exists_eq_add_of_lt (show 0 < turns by omega)
  rw [Nat.zero_add, ← List.append_cons]
  by_cases hc : IsAscii c
  · rw [if_pos hc, closingQuote, bytes_getElem?_ascii hc, size_append, size_cons, utf8Size_of_ascii hc]
    rfl
  · have hwide := one_lt_utf8Size hc
    obtain ⟨turns, rfl⟩ := Nat.exists_eq_add_of_lt (show 0 < turns by omega)
    obtain ⟨b, hb, -, -⟩ := bytes_getElem?_wide pre rest hc c.utf8Size_pos
    obtain ⟨b', hb', hslash, hquote⟩ := bytes_getElem?_wide pre rest hc hwide
    rw [Nat.add_zero] at hb
    rw [if_neg hc, closingQuote, hb]
    dsimp only
    rw [if_pos rfl, Nat.zero_add, closingQuote, hb']
    dsimp only
    rw [if_neg Bool.false_ne_true, if_neg hslash, if_neg hquote, sliceFrom, dropTo_inside Nat.one_pos hwide]
    rfl

theorem closingQuote_backslash (hturns : size ('\\' :: rest) ≤ turns) :
    closingQuote (pre ++ '\\' :: rest) turns (size pre) false =
      closingQuote (pre ++ ['\\'] ++ rest) (turns - 1) (size (pre ++ ['\\'])) true := by
  have hpos := (size_pos (List.cons_ne_nil '\\' rest)).trans_le hturns
  obtain ⟨turns, rfl⟩ := Nat.exists_eq_add_of_lt hpos
  rw [Nat.zero_add, ← List.append_cons, closingQuote, bytes_getElem?_ascii (by decide), size_append]
  rfl

theorem closingQuote_plain (hturns : size (c :: rest) ≤ turns) (hslash : c ≠ '\\') (hquote : c ≠ '"') :
    closingQuote (pre ++ c :: rest) turns (size pre) false =
      closingQuote (pre ++ [c] ++ rest) (turns - 1) (size (pre ++ [c])) false := by
  have hpos := (size_pos (List.cons_ne_nil c rest)).trans_le hturns
  obtain ⟨turns, rfl⟩ := Nat.exists_eq_add_of_lt hpos
  have hbyte : ∃ b, (bytes (pre ++ c :: rest))[size pre]? = some b ∧ b ≠ 0x5C ∧ b ≠ 0x22 := by
    by_cases hc : IsAscii c
    · refine ⟨_, bytes_getElem?_ascii hc, ?_, ?_⟩
      · exact fun h => hslash ((ofNat_eq_iff hc '\\' (by decide)).1 h)
      · exact fun h => hquote ((ofNat_eq_iff hc '"' (by decide)).1 h)
    · exact bytes_getElem?_wide pre rest hc c.utf8Size_pos
  obtain ⟨b, hb, hslash, hquote⟩ := hbyte
  rw [Nat.zero_add, ← List.append_cons, closingQuote, hb]
  dsimp only
  rw [if_neg Bool.false_ne_true, if_neg hslash, if_neg hquote, sliceFrom, dropTo_append, size_append, size_cons, size_nil]
  rfl

theorem closingQuote_quote (hturns : size ('"' :: rest) ≤ turns) :
    closingQuote (pre ++ '"' :: rest) turns (size pre) false = .ok (some (size pre)) := by
  have hpos := (size_pos (List.cons_ne_nil '"' rest)).trans_le hturns
  obtain ⟨turns, rfl⟩ := Nat.exists_eq_add_of_lt hpos
  rw [closingQuote, bytes_getElem?_ascii (by decide)]
  rfl

theorem closingQuote_end (pre : Text) (turns : ℕ) (esc : Bool) : closingQuote pre turns (size pre) esc = .ok none := by
  cases turns with
  | zero => rfl
  | succ turns =>
    rw [closingQuote, List.getElem?_eq_none (show (bytes pre).length ≤ size pre from le_rfl)]

/-- **The loop** ends at the closing quote, or at the end of the text, or in a panic. -/
theorem closingQuote_eq (pre post : Text) (turns : ℕ) (hturns : size post ≤ turns) :
    closingQuote (pre ++ post) turns (size pre) false =
      if escapesWide post then .error .panic else .ok ((quoted post).map fun body => size pre + size body) := by
  induction post using escapesWide.induct generalizing pre turns with
  | case1 c rest ih =>
    have hsize : size (c :: rest) ≤ turns - 1 := by
      rw [size_cons, utf8Size_of_ascii (by decide)] at hturns
      omega
    have hrest : size rest ≤ turns - 1 - 1 := by
      have := c.utf8Size_pos
      rw [size_cons] at hsize
      omega
    rw [closingQuote_backslash hturns, closingQuote_escape hsize, escapesWide, quoted]
    by_cases hc : IsAscii c
    · rw [if_pos hc, ih _ _ hrest]
      simp only [hc, decide_true, Bool.not_true, Bool.false_or, Option.map_map, size_append, size_cons, size_nil,
        Function.comp_def, Nat.add_zero, Nat.add_assoc]
    · rw [if_neg hc]
      simp [hc]
  | case2 rest =>
    rw [closingQuote_quote hturns]
    rfl
  | case3 c rest hslash hquote ih =>
    rw [escapesWide.eq_3 _ _ hslash hquote, quoted.eq_3 _ _ hslash hquote]
    have hrest : size rest ≤ turns - 1 := by
      have := c.utf8Size_pos
      rw [size_cons] at hturns
      omega
    by_cases hc : c = '\\'
    · subst hc
      cases rest with
      | nil =>
        rw [closingQuote_backslash hturns, List.append_nil, closingQuote_end]
        rfl
      | cons c rest => exact absurd rfl (hslash c rest rfl)
    · rw [closingQuote_plain hturns hc (fun h => hquote h), ih _ _ hrest]
      simp only [Option.map_map, size_append, size_cons, size_nil, Function.comp_def, Nat.add_zero, Nat.add_assoc]
  | case4 =>
    rw [List.append_nil, closingQuote_end]
    rfl

end closing

end Qtss.Ai.Parser
