import Mathlib.Data.Int.Notation
import Mathlib.Logic.Function.Basic
import Qtss.Lib.Fallible
/-
# Sealed secrets (`qtss-secrets/src/cipher.rs`, `kek.rs`, `store.rs`)

| here | there |
| --- | --- |
| `Aes256Gcm`, `fromSlice` | the `aes-gcm` crate: `encrypt` and `decrypt`, and `Nonce::from_slice`, which panics on any length but 12 |
| `KekProvider`     | kek.rs:6: the keys of a provider and the version that it seals under |
| `aesSeal`, `aesOpen`, `sealSecret`, `openSecret` | cipher.rs:26, :36, :46, :71; the random bytes are arguments |
| `put`, `get`      | `PgSecretStore` (store.rs:54, :88), the rows of `secrets_vault` by their names |

What `seal` returns is opened by every provider that still holds the version (`openSecret_sealSecret`). A row that comes from
elsewhere is looked at twice on the way, for twelve bytes of a nonce before the wrapped key and for the 32 bytes of the
key, and the nonce of the payload is not: `openSecret_iff`.
-/

namespace Qtss.Secrets
open Fallible

abbrev Bytes := List UInt8

/-- `[u8; n]` -/
abbrev Block (n : ℕ) := { b : Bytes // b.length = n }

/-- Errors are `none`. -/
structure Aes256Gcm where
  encrypt : Block 32 → Block 12 → Bytes → Option Bytes
  decrypt : Block 32 → Block 12 → Bytes → Option Bytes
  decrypt_encrypt : ∀ {key nonce plaintext ct}, encrypt key nonce plaintext = some ct →
    decrypt key nonce ct = some plaintext

inductive SecretError where
  | notFound (name : String)
  | unknownKekVersion (version : ℤ)
  | crypto (message : String)
  | database
deriving DecidableEq

inductive Failure where
  | err (e : SecretError)
  | panic
deriving DecidableEq

structure KekProvider where
  currentVersion : ℤ
  keyFor : ℤ → Option (Block 32)

structure SealedSecret where
  wrappedDek : Bytes
  ciphertext : Bytes
  nonce : Bytes
  kekVersion : ℤ
deriving DecidableEq

def fromSlice (b : Bytes) : Except Failure (Block 12) := if h : b.length = 12 then .ok ⟨b, h⟩ else .error .panic

def orElse {α : Type} (e : SecretError) : Option α → Except Failure α
  | some a => .ok a
  | none => .error (.err e)

def KekProvider.key (kek : KekProvider) (version : ℤ) : Except Failure (Block 32) :=
  orElse (.unknownKekVersion version) (kek.keyFor version)

variable (aes : Aes256Gcm)

def aesSeal (nonceBytes : Block 12) (key : Block 32) (plaintext : Bytes) : Except Failure (Bytes × Bytes) := do
  let nonce ← fromSlice nonceBytes
  let ct ← orElse (.crypto "aead::Error") (aes.encrypt key nonce plaintext)
  return (ct, nonceBytes)

def aesOpen (key : Block 32) (nonce ciphertext : Bytes) : Except Failure Bytes := do
  let nonce ← fromSlice nonce
  orElse (.crypto "aead::Error") (aes.decrypt key nonce ciphertext)

def sealSecret (kek : KekProvider) (dek : Block 32) (nonceBytes wrapBytes : Block 12) (plaintext : Bytes) :
    Except Failure SealedSecret := do
  let (ciphertext, nonce) ← aesSeal aes nonceBytes dek plaintext
  let version := kek.currentVersion
  let master ← kek.key version
  let (wrappedBody, wrapNonce) ← aesSeal aes wrapBytes master dek
  return ⟨wrapNonce ++ wrappedBody, ciphertext, nonce, version⟩

def openSecret (kek : KekProvider) (s : SealedSecret) : Except Failure Bytes := do
  if s.wrappedDek.length < 12 then throw (.err (.crypto "wrapped_dek too short"))
  let (wrapNonce, wrapBody) := s.wrappedDek.splitAt 12
  let master ← kek.key s.kekVersion
  let dekVec ← aesOpen aes master wrapNonce wrapBody
  if h : dekVec.length = 32 then aesOpen aes ⟨dekVec, h⟩ s.nonce s.ciphertext
  else throw (.err (.crypto "unwrapped DEK has wrong length"))

/-! ## The store -/

abbrev Vault := String → Option SealedSecret

def put (kek : KekProvider) (dek : Block 32) (nonceBytes wrapBytes : Block 12) (vault : Vault) (name : String)
    (plaintext : Bytes) : Except Failure Vault := do
  let sealed ← sealSecret aes kek dek nonceBytes wrapBytes plaintext
  if (vault name).isSome then throw (.err .database)
  return Function.update vault name (some sealed)

def get (kek : KekProvider) (vault : Vault) (name : String) : Except Failure Bytes := do
  let sealed ← orElse (.notFound name) (vault name)
  openSecret aes kek sealed

/-! ## What comes back -/

variable {aes} {kek kek' : KekProvider} {dek : Block 32} {nonceBytes wrapBytes : Block 12} {plaintext : Bytes}
  {s : SealedSecret}

@[simp] theorem fromSlice_block (b : Block 12) : fromSlice b = .ok b := dif_pos b.2

theorem fromSlice_panic {b : Bytes} : fromSlice b = .error .panic ↔ b.length ≠ 12 := by
  unfold fromSlice
  split <;> simp [*]

@[simp] theorem orElse_some {α : Type} (e : SecretError) (a : α) : orElse e (some a) = .ok a := rfl

@[simp] theorem orElse_none {α : Type} (e : SecretError) : orElse e (none : Option α) = .error (.err e) := rfl

@[simp] theorem ok_bind {α β : Type} (a : α) (f : α → Except Failure β) : Except.ok a >>= f = f a := rfl

@[simp] theorem error_bind {α β : Type} (e : Failure) (f : α → Except Failure β) : Except.error e >>= f = .error e := rfl

theorem orElse_eq_ok {α : Type} {e : SecretError} {o : Option α} {a : α} : orElse e o = .ok a ↔ o = some a := by
  cases o <;> simp [orElse]

theorem orElse_ne_panic {α : Type} {e : SecretError} {o : Option α} : orElse e o ≠ .error .panic := by
  cases o <;> simp [orElse]

theorem aesSeal_eq_ok {key : Block 32} {ct nonce : Bytes} :
    aesSeal aes nonceBytes key plaintext = .ok (ct, nonce) ↔
      aes.encrypt key nonceBytes plaintext = some ct ∧ nonce = nonceBytes := by
  simp only [aesSeal, bind_eq_ok, fromSlice_block, orElse_eq_ok]
  constructor
  · rintro ⟨n, hn, c, hc, h⟩
    cases hn
    cases h
    exact ⟨hc, rfl⟩
  · rintro ⟨hct, rfl⟩
    exact ⟨nonceBytes, rfl, ct, hct, rfl⟩

@[simp] theorem aesOpen_block {key : Block 32} {nonce : Block 12} {ct : Bytes} :
    aesOpen aes key nonce ct = orElse (.crypto "aead::Error") (aes.decrypt key nonce ct) := by
  rw [aesOpen, fromSlice_block]
  rfl

theorem openSecret_short (h : s.wrappedDek.length < 12) :
    openSecret aes kek s = .error (.err (.crypto "wrapped_dek too short")) := by
  rw [openSecret, if_pos h]
  rfl

/-- The first twelve bytes are the nonce. -/
theorem openSecret_append {wrapNonce : Block 12} {body : Bytes} (h : s.wrappedDek = wrapNonce ++ body) :
    openSecret aes kek s =
      kek.key s.kekVersion >>= fun master =>
        orElse (.crypto "aead::Error") (aes.decrypt master wrapNonce body) >>= fun dekVec =>
          if h : dekVec.length = 32 then aesOpen aes ⟨dekVec, h⟩ s.nonce s.ciphertext
          else throw (.err (.crypto "unwrapped DEK has wrong length")) := by
  have hlong : ¬ s.wrappedDek.length < 12 := by
    rw [h, List.length_append, wrapNonce.2]
    omega
  have hsplit : s.wrappedDek.splitAt 12 = (wrapNonce.1, body) := by
    rw [List.splitAt_eq, h, List.take_left' wrapNonce.2, List.drop_left' wrapNonce.2]
  rw [openSecret, if_neg hlong, hsplit]
  simp only [aesOpen_block]

theorem openSecret_unwrapped {master dek : Block 32} {wrapNonce : Block 12} {body : Bytes}
    (h : s.wrappedDek = wrapNonce ++ body) (hmaster : kek.keyFor s.kekVersion = some master)
    (hdek : aes.decrypt master wrapNonce body = some dek.1) :
    openSecret aes kek s = aesOpen aes dek s.nonce s.ciphertext := by
  rw [openSecret_append h, KekProvider.key, hmaster, orElse_some, ok_bind, hdek, orElse_some, ok_bind]
  exact dif_pos dek.2

/-- The wrapped key opens under the key of its version, to 32 bytes. -/
def Unwraps (aes : Aes256Gcm) (kek : KekProvider) (s : SealedSecret) (dek : Block 32) : Prop :=
  ∃ master ∈ kek.keyFor s.kekVersion, ∃ (wrapNonce : Block 12) (body : Bytes),
    s.wrappedDek = wrapNonce ++ body ∧ aes.decrypt master wrapNonce body = some dek.1

/-- Only a row whose key opens can panic. -/
theorem unwraps_of_panic (h : openSecret aes kek s = .error .panic) : ∃ dek, Unwraps aes kek s dek := by
  by_cases hlong : s.wrappedDek.length < 12
  · rw [openSecret_short hlong] at h
    cases h
  · have hlength : (s.wrappedDek.take 12).length = 12 := List.length_take_of_le (by omega)
    have hwrap : s.wrappedDek = (⟨_, hlength⟩ : Block 12) ++ s.wrappedDek.drop 12 := (List.take_append_drop 12 _).symm
    have hopen : openSecret aes kek s = _ := openSecret_append hwrap
    rw [h, KekProvider.key] at hopen
    cases hmaster : kek.keyFor s.kekVersion with
    | none =>
      rw [hmaster, orElse_none, error_bind] at hopen
      cases hopen
    | some master =>
      rw [hmaster, orElse_some, ok_bind] at hopen
      cases hdek : aes.decrypt master ⟨_, hlength⟩ (s.wrappedDek.drop 12) with
      | none =>
        rw [hdek, orElse_none, error_bind] at hopen
        cases hopen
      | some dekVec =>
        by_cases h32 : dekVec.length = 32
        · exact ⟨⟨dekVec, h32⟩, master, hmaster, ⟨_, hlength⟩, _, hwrap, hdek⟩
        · rw [hdek, orElse_some, ok_bind, dif_neg h32] at hopen
          cases hopen

/-- **Panics**: a row panics exactly when its key opens and the nonce of its payload is not of twelve bytes. -/
theorem openSecret_panic : openSecret aes kek s = .error .panic ↔
    s.nonce.length ≠ 12 ∧ ∃ dek, Unwraps aes kek s dek := by
  constructor
  · intro h
    obtain ⟨dek, hdek⟩ := unwraps_of_panic h
    refine ⟨fun hnonce => ?_, dek, hdek⟩
    obtain ⟨master, hmaster, wrapNonce, body, hwrap, hdecrypt⟩ := hdek
    have hopen : aesOpen aes dek (⟨_, hnonce⟩ : Block 12) s.ciphertext = _ := aesOpen_block
    rw [openSecret_unwrapped hwrap hmaster hdecrypt, hopen] at h
    exact orElse_ne_panic h
  · rintro ⟨hnonce, dek, master, hmaster, wrapNonce, body, hwrap, hdecrypt⟩
    rw [openSecret_unwrapped hwrap hmaster hdecrypt, aesOpen, fromSlice_panic.2 hnonce]
    rfl

/-- **Rotation**: what was sealed is opened by every provider that holds the version. -/
theorem openSecret_sealSecret (hseal : sealSecret aes kek dek nonceBytes wrapBytes plaintext = .ok s)
    (hkey : kek'.keyFor s.kekVersion = kek.keyFor s.kekVersion) : openSecret aes kek' s = .ok plaintext := by
  simp only [sealSecret, bind_eq_ok, KekProvider.key, orElse_eq_ok] at hseal
  obtain ⟨⟨ct, nonce⟩, hpayload, master, hmaster, ⟨body, wrapNonce⟩, hwrapped, h⟩ := hseal
  obtain ⟨hct, rfl⟩ := aesSeal_eq_ok.1 hpayload
  obtain ⟨hbody, rfl⟩ := aesSeal_eq_ok.1 hwrapped
  cases h
  rw [openSecret_unwrapped rfl (hkey.trans hmaster) (aes.decrypt_encrypt hbody), aesOpen_block,
    aes.decrypt_encrypt hct]
  rfl

theorem sealSecret_isOk : (∃ s, sealSecret aes kek dek nonceBytes wrapBytes plaintext = .ok s) ↔
    (aes.encrypt dek nonceBytes plaintext).isSome ∧
      ∃ master ∈ kek.keyFor kek.currentVersion, (aes.encrypt master wrapBytes dek).isSome := by
  simp only [sealSecret, bind_eq_ok, KekProvider.key, orElse_eq_ok, Option.isSome_iff_exists]
  constructor
  · rintro ⟨s, ⟨ct, nonce⟩, hpayload, master, hmaster, ⟨body, wrapNonce⟩, hwrapped, -⟩
    exact ⟨⟨ct, (aesSeal_eq_ok.1 hpayload).1⟩, master, hmaster, body, (aesSeal_eq_ok.1 hwrapped).1⟩
  · rintro ⟨⟨ct, hct⟩, master, hmaster, body, hbody⟩
    exact ⟨_, (ct, _), aesSeal_eq_ok.2 ⟨hct, rfl⟩, master, hmaster, (body, _), aesSeal_eq_ok.2 ⟨hbody, rfl⟩, rfl⟩

/-! ## The vault -/

variable {vault vault' : Vault} {name : String}

theorem get_panic : get aes kek vault name = .error .panic ↔
    ∃ s ∈ vault name, s.nonce.length ≠ 12 ∧ ∃ dek, Unwraps aes kek s dek := by
  unfold get
  cases vault name with
  | none => simp
  | some s => simp [openSecret_panic]

/-- A secret that was put is got, whatever the provider has become that still holds its version. -/
theorem get_put (hput : put aes kek dek nonceBytes wrapBytes vault name plaintext = .ok vault')
    (hkey : kek'.keyFor kek.currentVersion = kek.keyFor kek.currentVersion) :
    get aes kek' vault' name = .ok plaintext := by
  obtain ⟨s, hseal, h⟩ := bind_eq_ok.1 hput
  have hversion : s.kekVersion = kek.currentVersion := by
    simp only [sealSecret, bind_eq_ok] at hseal
    obtain ⟨_, _, _, _, _, _, hs⟩ := hseal
    cases hs
    rfl
  split at h
  · cases h
  · cases h
    rw [get, Function.update_self, orElse_some, ok_bind]
    exact openSecret_sealSecret hseal (hversion ▸ hkey)

/-- **Rows of any kind**: they open or fail without a panic exactly where the nonce has twelve bytes or no key is
unwrapped, and what was sealed always comes back. -/
theorem openSecret_iff (aes : Aes256Gcm) :
    (∀ kek s, openSecret aes kek s ≠ .error .panic ↔ s.nonce.length = 12 ∨ ¬ ∃ dek, Unwraps aes kek s dek) ∧
      ∀ kek kek' dek nonceBytes wrapBytes plaintext s,
        sealSecret aes kek dek nonceBytes wrapBytes plaintext = .ok s →
          kek'.keyFor s.kekVersion = kek.keyFor s.kekVersion → openSecret aes kek' s = .ok plaintext := by
  refine ⟨fun kek s => ?_, fun kek kek' dek nonceBytes wrapBytes plaintext s => openSecret_sealSecret⟩
  rw [ne_eq, openSecret_panic, not_and_or, not_not]

/-! ## A nonce of eleven bytes -/

/-- A tag of sixteen bytes, without encryption. -/
def tagOnly : Aes256Gcm where
  encrypt _ _ plaintext := some (List.replicate 16 0 ++ plaintext)
  decrypt _ _ ct := if ct.take 16 = List.replicate 16 0 then some (ct.drop 16) else none
  decrypt_encrypt := by
    rintro key nonce plaintext ct ⟨rfl⟩
    simp

def staticKek (version : ℤ) (key : Block 32) : KekProvider := ⟨version, fun v => if v = version then some key else none⟩

def zeros (n : ℕ) : Block n := ⟨List.replicate n 0, List.length_replicate⟩

/-- A provider that has gone on to version 2 and holds both. -/
def rotatedKek : KekProvider := ⟨2, fun v => if v = 1 ∨ v = 2 then some (zeros 32) else none⟩

theorem openSecret_iff_rotated : openSecret tagOnly rotatedKek
    ⟨List.replicate 60 0, List.replicate 16 0 ++ [1, 2, 3], List.replicate 12 0, 1⟩ = .ok [1, 2, 3] :=
  (openSecret_iff tagOnly).2 (staticKek 1 (zeros 32)) rotatedKek (zeros 32) (zeros 12) (zeros 12) [1, 2, 3] _
    (by decide +kernel) (by decide +kernel)

/-- The same row with one byte less of the nonce. -/
theorem short_nonce_panics : openSecret tagOnly rotatedKek
    ⟨List.replicate 60 0, List.replicate 16 0 ++ [1, 2, 3], List.replicate 11 0, 1⟩ = .error .panic := by
  decide +kernel

end Qtss.Secrets
