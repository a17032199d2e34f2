import Mathlib.Data.List.Basic
import Mathlib.Data.Option.Basic
import Mathlib.Order.Nat
/-!
# Offsets into texts

An offset into a text counts the bytes of its UTF-8 form. It is a boundary where the text before it is whole: slices
exist at boundaries only (`dropTo`, `upTo`). A search for a text ends at a boundary (`find_eq_some`), and so does one
for bytes below 128, as each of these is a character of its own and the bytes of all other characters are above
(`bytes_split`). A machine that reads bytes, and does not tell those above 128 apart, is one that reads characters
(`scan_bytes`).
-/

namespace Utf8

def bytes (s : List Char) : List UInt8 := s.flatMap String.utf8EncodeChar

def size (s : List Char) : ℕ := (bytes s).length

def IsAscii (c : Char) : Prop := c.toNat < 128

instance (c : Char) : Decidable (IsAscii c) := inferInstanceAs (Decidable (_ < _))

/-- The text from the offset on; none inside a character and past the end. -/
def dropTo : List Char → ℕ → Option (List Char)
  | s, 0 => some s
  | [], _ + 1 => none
  | c :: s, n + 1 => if c.utf8Size ≤ n + 1 then dropTo s (n + 1 - c.utf8Size) else none

/-- The text before the offset. -/
def upTo : List Char → ℕ → Option (List Char)
  | _, 0 => some []
  | [], _ + 1 => none
  | c :: s, n + 1 => if c.utf8Size ≤ n + 1 then (upTo s (n + 1 - c.utf8Size)).map (c :: ·) else none

/-- The offset of the first place at which the pattern stands. -/
def find (pat : List Char) : List Char → Option ℕ
  | [] => if pat.isEmpty then some 0 else none
  | c :: s => if pat.isPrefixOf (c :: s) then some 0 else (find pat s).map (· + c.utf8Size)

/-- The offset of the first character of the kind. -/
def findChar (p : Char → Bool) : List Char → Option ℕ
  | [] => none
  | c :: s => if p c then some 0 else (findChar p s).map (· + c.utf8Size)

variable {a b c s t : List Char} {ch : Char}

@[simp] theorem bytes_nil : bytes [] = [] := rfl

theorem bytes_cons : bytes (ch :: s) = String.utf8EncodeChar ch ++ bytes s := List.flatMap_cons

theorem bytes_append : bytes (a ++ b) = bytes a ++ bytes b := List.flatMap_append

@[simp] theorem size_nil : size [] = 0 := rfl

theorem size_cons : size (ch :: s) = ch.utf8Size + size s := by
  rw [size, bytes_cons, List.length_append, String.length_utf8EncodeChar, size]

theorem size_append : size (a ++ b) = size a + size b := by rw [size, bytes_append, List.length_append, size, size]

theorem size_pos (h : s ≠ []) : 0 < size s := by
  obtain ⟨ch, s, rfl⟩ := List.exists_cons_of_ne_nil h
  have := ch.utf8Size_pos
  rw [size_cons]
  omega

/-! ## Slices -/

theorem dropTo_zero : dropTo s 0 = some s := by cases s <;> rfl

theorem upTo_zero : upTo s 0 = some [] := by cases s <;> rfl

theorem dropTo_cons (ch : Char) (s : List Char) (n : ℕ) : dropTo (ch :: s) (n + ch.utf8Size) = dropTo s n := by
  obtain ⟨k, hk⟩ := Nat.exists_eq_succ_of_ne_zero ch.utf8Size_pos.ne'
  rw [hk, Nat.add_succ, dropTo, if_pos (by omega), show n + k + 1 - ch.utf8Size = n by omega]

theorem upTo_cons (ch : Char) (s : List Char) (n : ℕ) :
    upTo (ch :: s) (n + ch.utf8Size) = (upTo s n).map (ch :: ·) := by
  obtain ⟨k, hk⟩ := Nat.exists_eq_succ_of_ne_zero ch.utf8Size_pos.ne'
  rw [hk, Nat.add_succ, upTo, if_pos (by omega), show n + k + 1 - ch.utf8Size = n by omega]

@[simp] theorem dropTo_append (a b : List Char) : dropTo (a ++ b) (size a) = some b := by
  induction a with
  | nil => exact dropTo_zero
  | cons ch a ih => rw [size_cons, Nat.add_comm, List.cons_append, dropTo_cons, ih]

@[simp] theorem upTo_append (a b : List Char) : upTo (a ++ b) (size a) = some a := by
  induction a with
  | nil => exact upTo_zero
  | cons ch a ih => rw [size_cons, Nat.add_comm, List.cons_append, upTo_cons, ih, Option.map_some]

/-- No slice starts inside a character. -/
theorem dropTo_inside {n : ℕ} (hpos : 0 < n) (hlt : n < ch.utf8Size) : dropTo (a ++ ch :: b) (size a + n) = none := by
  induction a with
  | nil =>
    obtain ⟨k, rfl⟩ := Nat.exists_eq_succ_of_ne_zero hpos.ne'
    rw [size_nil, Nat.zero_add, List.nil_append, dropTo, if_neg (by omega)]
  | cons ch' a ih =>
    rw [size_cons, show ch'.utf8Size + size a + n = size a + n + ch'.utf8Size by omega, List.cons_append, dropTo_cons, ih]

/-! ## Searches -/

section find
variable {pat : List Char} {i : ℕ}

theorem find_cons : find pat (ch :: s) = if pat.isPrefixOf (ch :: s) then some 0
    else (find pat s).map (· + ch.utf8Size) := rfl

/-- A search ends before the pattern. -/
theorem find_eq_some (h : find pat s = some i) : ∃ a b, s = a ++ pat ++ b ∧ i = size a := by
  induction s generalizing i with
  | nil =>
    unfold find at h
    split at h
    · rename_i hempty
      exact ⟨[], [], by simpa using hempty, (Option.some.inj h).symm⟩
    · cases h
  | cons ch s ih =>
    rw [find_cons] at h
    split at h
    · rename_i hpre
      obtain ⟨b, hb⟩ := List.isPrefixOf_iff_prefix.1 hpre
      exact ⟨[], b, hb.symm, (Option.some.inj h).symm⟩
    · obtain ⟨j, hj, rfl⟩ := Option.map_eq_some_iff.1 h
      obtain ⟨a, b, rfl, rfl⟩ := ih hj
      exact ⟨ch :: a, b, rfl, by rw [size_cons, Nat.add_comm]⟩

/-- What follows does not change where the pattern is found first. -/
theorem find_append (h : find pat s = some i) (t : List Char) : find pat (s ++ t) = some i := by
  induction s generalizing i with
  | nil =>
    have hpat : pat = [] := by
      unfold find at h
      split at h
      · rename_i hempty
        simpa using hempty
      · cases h
    subst hpat
    cases t with
    | nil => exact h
    | cons ch t => exact h
  | cons ch s ih =>
    rw [List.cons_append, find_cons]
    rw [find_cons] at h
    split at h
    · rename_i hpre
      rw [if_pos, h]
      rw [List.isPrefixOf_iff_prefix] at hpre ⊢
      exact hpre.trans (List.prefix_append (ch :: s) t)
    · rename_i hpre
      obtain ⟨j, hj, rfl⟩ := Option.map_eq_some_iff.1 h
      rw [if_neg, ih hj, Option.map_some]
      -- the pattern is not longer than `s`, so that it stands here only if it stands in `ch :: s`
      obtain ⟨a, b, hs, -⟩ := find_eq_some hj
      have hlength : pat.length ≤ (ch :: s).length := by
        have := congrArg List.length hs
        simp only [List.length_append] at this
        simp only [List.length_cons]
        omega
      rw [List.isPrefixOf_iff_prefix] at hpre ⊢
      exact fun hlong => hpre (List.prefix_of_prefix_length_le hlong (List.prefix_append (ch :: s) t) hlength)

variable {p : Char → Bool}

theorem findChar_cons : findChar p (ch :: s) = if p ch then some 0 else (findChar p s).map (· + ch.utf8Size) := rfl

theorem findChar_eq_some (h : findChar p s = some i) :
    ∃ a ch b, s = a ++ ch :: b ∧ i = size a ∧ p ch ∧ ∀ x ∈ a, ¬ p x := by
  induction s generalizing i with
  | nil => cases h
  | cons ch s ih =>
    rw [findChar_cons] at h
    split at h
    · rename_i hp
      exact ⟨[], ch, s, rfl, (Option.some.inj h).symm, hp, by simp⟩
    · rename_i hp
      obtain ⟨j, hj, rfl⟩ := Option.map_eq_some_iff.1 h
      obtain ⟨a, ch', b, rfl, rfl, hch', ha⟩ := ih hj
      refine ⟨ch :: a, ch', b, rfl, by rw [size_cons, Nat.add_comm], hch', fun x hx => ?_⟩
      obtain rfl | hx := List.mem_cons.1 hx
      · exact hp
      · exact ha x hx

theorem findChar_eq_none (h : findChar p s = none) : ∀ x ∈ s, ¬ p x := by
  induction s with
  | nil => simp
  | cons ch s ih =>
    rw [findChar_cons] at h
    split at h
    · cases h
    · rename_i hp
      intro x hx
      obtain rfl | hx := List.mem_cons.1 hx
      · exact hp
      · exact ih (Option.map_eq_none_iff.1 h) x hx

theorem findChar_of (ha : ∀ x ∈ a, ¬ p x) (hch : p ch) (b : List Char) : findChar p (a ++ ch :: b) = some (size a) := by
  induction a with
  | nil => rw [List.nil_append, findChar_cons, if_pos hch, size_nil]
  | cons x a ih =>
    rw [List.cons_append, findChar_cons, if_neg (ha x List.mem_cons_self), ih fun y hy => ha y (List.mem_cons_of_mem _ hy),
      Option.map_some, size_cons, Nat.add_comm]

end find

/-! ## Bytes -/

theorem encode_of_ascii (h : IsAscii ch) : String.utf8EncodeChar ch = [UInt8.ofNat ch.toNat] := by
  have h : ch.val.toNat ≤ 127 := Nat.le_of_lt_succ h
  rw [String.utf8EncodeChar, if_pos h]
  rfl

theorem utf8Size_of_ascii (h : IsAscii ch) : ch.utf8Size = 1 := by
  rw [← String.length_utf8EncodeChar, encode_of_ascii h, List.length_singleton]

/-- The bytes of all other characters are above. -/
theorem le_of_mem_encode (h : ¬ IsAscii ch) {x : UInt8} (hx : x ∈ String.utf8EncodeChar ch) : 128 ≤ x.toNat := by
  have h : ¬ ch.val.toNat ≤ 127 := fun hle => h (Nat.lt_succ_of_le hle)
  unfold String.utf8EncodeChar at hx
  simp only [h, if_false] at hx
  split_ifs at hx <;> simp only [List.mem_cons, List.not_mem_nil, or_false] at hx <;>
    rcases hx with rfl | rfl | rfl | rfl <;> simp only [UInt8.toNat_ofNat'] <;> omega

theorem one_lt_utf8Size (h : ¬ IsAscii ch) : 1 < ch.utf8Size := by
  refine lt_of_le_of_ne ch.utf8Size_pos fun hone => h ?_
  have hle : ch.val ≤ 0x7f := Char.utf8Size_eq_one_iff.1 hone.symm
  exact Nat.lt_succ_of_le (UInt32.le_iff_toNat_le.1 hle)

/-- **A byte below 128** is a character of its own. -/
theorem bytes_split {x y : List UInt8} {byte : UInt8} (h : bytes s = x ++ byte :: y) (hbyte : byte.toNat < 128) :
    ∃ a ch b, s = a ++ ch :: b ∧ bytes a = x ∧ bytes b = y ∧ ch.toNat = byte.toNat := by
  induction s generalizing x with
  | nil => simp at h
  | cons ch s ih =>
    rw [bytes_cons] at h
    by_cases hch : IsAscii ch
    · rw [encode_of_ascii hch, List.singleton_append] at h
      cases x with
      | nil =>
        obtain ⟨hhead, htail⟩ := List.cons.inj h
        refine ⟨[], ch, s, rfl, rfl, htail, ?_⟩
        rw [← hhead, UInt8.toNat_ofNat', Nat.mod_eq_of_lt (Nat.lt_trans hch (by decide))]
      | cons z x =>
        obtain ⟨hhead, htail⟩ := List.cons.inj h
        obtain ⟨a, ch', b, rfl, rfl, rfl, hch'⟩ := ih htail
        refine ⟨ch :: a, ch', b, rfl, ?_, rfl, hch'⟩
        rw [bytes_cons, encode_of_ascii hch, List.singleton_append, hhead]
    · obtain ⟨z, hx, hs⟩ | ⟨z, hch', hz⟩ := List.append_eq_append_iff.1 h
      · obtain ⟨a, ch', b, rfl, rfl, rfl, hbyte'⟩ := ih hs
        exact ⟨ch :: a, ch', b, rfl, by rw [bytes_cons, hx], rfl, hbyte'⟩
      · cases z with
        | nil =>
          obtain ⟨a, ch', b, rfl, ha, rfl, hbyte'⟩ := ih (x := []) hz.symm
          refine ⟨ch :: a, ch', b, rfl, ?_, rfl, hbyte'⟩
          rw [bytes_cons, ha, hch', List.append_nil, List.append_nil]
        | cons w z =>
          have hw : w = byte := (List.cons.inj hz).1.symm
          have hmem : byte ∈ String.utf8EncodeChar ch := by
            rw [hch', hw]
            simp
          exact absurd (le_of_mem_encode hch hmem) (not_le.2 hbyte)

theorem eq_nil_of_bytes (h : bytes s = []) : s = [] := by
  by_contra hne
  have := size_pos hne
  rw [size, h] at this
  exact absurd this (lt_irrefl 0)

theorem bytes_split_prefix {m y : List UInt8} (h : bytes s = m ++ y) (hm : ∀ byte ∈ m, byte.toNat < 128) :
    ∃ d b, s = d ++ b ∧ bytes b = y ∧ d.map Char.toNat = m.map UInt8.toNat := by
  induction m generalizing s with
  | nil => exact ⟨[], s, rfl, h, rfl⟩
  | cons byte m ih =>
    obtain ⟨a, ch, b, rfl, ha, hb, hch⟩ := bytes_split (x := []) h (hm byte List.mem_cons_self)
    obtain rfl := eq_nil_of_bytes ha
    obtain ⟨d, b', rfl, hb', hd⟩ := ih hb fun z hz => hm z (List.mem_cons_of_mem _ hz)
    exact ⟨ch :: d, b', rfl, hb', by rw [List.map_cons, List.map_cons, hch, hd]⟩

/-- **A run of such bytes** is a text of as many characters. -/
theorem bytes_split_run {x m y : List UInt8} (h : bytes s = x ++ m ++ y) (hne : m ≠ [])
    (hm : ∀ byte ∈ m, byte.toNat < 128) :
    ∃ a d b, s = a ++ d ++ b ∧ bytes a = x ∧ d.map Char.toNat = m.map UInt8.toNat := by
  obtain ⟨byte, m, rfl⟩ := List.exists_cons_of_ne_nil hne
  rw [List.append_assoc] at h
  obtain ⟨a, ch, b, rfl, ha, hb, hch⟩ := bytes_split h (hm byte List.mem_cons_self)
  obtain ⟨d, b', rfl, -, hd⟩ := bytes_split_prefix hb fun z hz => hm z (List.mem_cons_of_mem _ hz)
  exact ⟨a, ch :: d, b', by simp, ha, by rw [List.map_cons, List.map_cons, hch, hd]⟩

/-! ## Machines -/

section scan
variable {σ : Type*}

/-- The offset of the byte at which the machine stops, counted from `i`. -/
def scan (step : σ → UInt8 → Option σ) : σ → ℕ → List UInt8 → Option ℕ
  | _, _, [] => none
  | st, i, byte :: rest =>
    match step st byte with
    | none => some i
    | some st' => scan step st' (i + 1) rest

/-- The offset of the character at which the machine stops. -/
def stop (step : σ → Char → Option σ) : σ → List Char → Option ℕ
  | _, [] => none
  | st, ch :: s =>
    match step st ch with
    | none => some 0
    | some st' => (stop step st' s).map (· + ch.utf8Size)

variable {byteStep : σ → UInt8 → Option σ} {step : σ → Char → Option σ} {st st' : σ}

/-- The machines agree: on characters below 128, and on the bytes of each of the others together. -/
structure Mirrors (byteStep : σ → UInt8 → Option σ) (step : σ → Char → Option σ) : Prop where
  ascii : ∀ st ch, IsAscii ch → byteStep st (UInt8.ofNat ch.toNat) = step st ch
  wide : ∀ st ch, ¬ IsAscii ch → ∃ st', step st ch = some st' ∧
    ∀ l : List UInt8, l ≠ [] → (∀ byte ∈ l, 128 ≤ byte.toNat) → l.foldlM byteStep st = some st'

theorem scan_append {l : List UInt8} (h : l.foldlM byteStep st = some st') (i : ℕ) (rest : List UInt8) :
    scan byteStep st i (l ++ rest) = scan byteStep st' (i + l.length) rest := by
  induction l generalizing st i with
  | nil =>
    obtain rfl := Option.some.inj h
    rfl
  | cons byte l ih =>
    rw [List.foldlM_cons] at h
    obtain ⟨mid, hmid, hrest⟩ := Option.bind_eq_some_iff.1 h
    rw [List.cons_append, scan, hmid, List.length_cons]
    dsimp only
    rw [ih hrest, Nat.add_assoc, Nat.add_comm 1]

theorem scan_bytes (hmirrors : Mirrors byteStep step) (st : σ) (i : ℕ) (s : List Char) :
    scan byteStep st i (bytes s) = (stop step st s).map (i + ·) := by
  induction s generalizing st i with
  | nil => rfl
  | cons ch s ih =>
    rw [bytes_cons]
    by_cases hch : IsAscii ch
    · rw [encode_of_ascii hch, List.singleton_append, scan, hmirrors.ascii st ch hch, stop]
      cases step st ch with
      | none => rfl
      | some st' =>
        dsimp only
        rw [ih, utf8Size_of_ascii hch, Option.map_map]
        congr 1
        funext j
        simp only [Function.comp]
        omega
    · obtain ⟨st', hstep, hwide⟩ := hmirrors.wide st ch hch
      rw [scan_append (hwide _ String.utf8EncodeChar_ne_nil fun _ hb => le_of_mem_encode hch hb), ih, stop, hstep,
        String.length_utf8EncodeChar]
      dsimp only
      rw [Option.map_map]
      congr 1
      funext j
      simp only [Function.comp]
      omega

theorem stop_append (h : a.foldlM step st = some st') (b : List Char) :
    stop step st (a ++ b) = (stop step st' b).map (· + size a) := by
  induction a generalizing st with
  | nil =>
    obtain rfl := Option.some.inj h
    cases hstop : stop step st b <;> simp [hstop]
  | cons ch a ih =>
    rw [List.foldlM_cons] at h
    obtain ⟨mid, hmid, hrest⟩ := Option.bind_eq_some_iff.1 h
    rw [List.cons_append, stop, hmid]
    dsimp only
    rw [ih hrest, Option.map_map, size_cons]
    congr 1
    funext j
    simp only [Function.comp]
    omega

/-- A machine that gets through the text does not stop in it. -/
theorem stop_eq_none (h : a.foldlM step st = some st') : stop step st a = none := by
  have := stop_append h []
  rwa [List.append_nil] at this

theorem stop_eq_some {i : ℕ} (h : stop step st s = some i) :
    ∃ a ch b st', s = a ++ ch :: b ∧ i = size a ∧ a.foldlM step st = some st' ∧ step st' ch = none := by
  induction s generalizing st i with
  | nil => cases h
  | cons ch s ih =>
    rw [stop] at h
    split at h
    · rename_i hstep
      exact ⟨[], ch, s, st, rfl, (Option.some.inj h).symm, rfl, hstep⟩
    · rename_i mid hstep
      obtain ⟨j, hj, rfl⟩ := Option.map_eq_some_iff.1 h
      obtain ⟨a, ch', b, st', rfl, rfl, ha, hch'⟩ := ih hj
      refine ⟨ch :: a, ch', b, st', rfl, by rw [size_cons, Nat.add_comm], ?_, hch'⟩
      rw [List.foldlM_cons, hstep]
      exact ha

end scan

end Utf8
