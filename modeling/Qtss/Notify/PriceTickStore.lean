import Qtss.Domain
import Qtss.Lib.Keyed
import Qtss.Lib.Runs
import Qtss.Storage.FillLongEstimate
/-
# The price tick store (`qtss-notify/src/price_tick.rs`)

| here | there |
| --- | --- |
| `PriceTick` | price_tick.rs:26 |
| `makeKey` | `make_key` (:59) |
| `upsert`, `get`, `drainStale` | :83, :95, :114; each takes the lock once, so a run is a list of calls |
| `served` | the `update_id`s that the calls of `get` under one key find, in order |

A frame is compared with the entry that is stored. `drain_stale` takes the entry away and with it what a later frame
would be compared with: the frames served under a key are ordered between two purges of the key (`served_sorted`) and not
across one. A `max_age` so large that the time underflows is left out.
-/

namespace Qtss.Notify.PriceTickStore
open Runs Keyed
open Execution.Dry (toAsciiUppercase)
open Storage.FillLongEstimate (toAsciiLowercase)

structure PriceTick where
  bid : ℚ
  ask : ℚ
  updateId : ℕ
  receivedAt : DateTime
deriving DecidableEq

abbrev PriceKey := String × String

def makeKey (exchange symbol : String) : PriceKey := (toAsciiLowercase exchange, toAsciiUppercase symbol)

abbrev Store := HashMap PriceKey PriceTick

/-- price_tick.rs:83. -/
def upsert (s : Store) (exchange symbol : String) (tick : PriceTick) : Store × Bool :=
  let key := makeKey exchange symbol
  match s.lookup key with
  | some prev => if tick.updateId ≤ prev.updateId then (s, false) else (s.insert key tick, true)
  | none => (s.insert key tick, true)

/-- price_tick.rs:95. -/
def get (s : Store) (exchange symbol : String) : Option PriceTick := s.lookup (makeKey exchange symbol)

/-- price_tick.rs:114. -/
def drainStale (s : Store) (now : DateTime) (maxAgeSecs : ℤ) : Store × ℕ :=
  let threshold := now - max maxAgeSecs 0
  let kept := retain (fun _ t => t.receivedAt ≥ threshold) s
  (kept, s.keys.length - kept.keys.length)

inductive Op where
  | upsert (exchange symbol : String) (tick : PriceTick)
  | get (exchange symbol : String)
  | drainStale (now : DateTime) (maxAgeSecs : ℤ)
deriving DecidableEq

def step (s : Store) : Op → Store
  | .upsert exchange symbol tick => (upsert s exchange symbol tick).1
  | .get _ _ => s
  | .drainStale now maxAgeSecs => (drainStale s now maxAgeSecs).1

/-- What a call of `get` under the key finds. -/
def readId (key : PriceKey) (s : Store) : Op → Option ℕ
  | .get exchange symbol => if makeKey exchange symbol = key then (get s exchange symbol).map (·.updateId) else none
  | _ => none

def served (key : PriceKey) : Store → List Op → List ℕ
  | _, [] => []
  | s, o :: os => (readId key s o).toList ++ served key (step s o) os

/-- The call takes the key's entry away. -/
def Purges (key : PriceKey) (s : Store) (o : Op) : Prop := (s.lookup key).isSome ∧ (step s o).lookup key = none

instance (key : PriceKey) (s : Store) (o : Op) : Decidable (Purges key s o) := by
  unfold Purges
  infer_instance

/-! ## One call -/

variable {key : PriceKey} {s : Store} {o : Op} {os : List Op} {t : PriceTick}

theorem lookup_upsert (s : Store) (exchange symbol : String) (tick : PriceTick) (key : PriceKey) :
    (upsert s exchange symbol tick).1.lookup key =
      if key = makeKey exchange symbol ∧ ∀ prev ∈ s.lookup key, prev.updateId < tick.updateId then some tick
      else s.lookup key := by
  unfold upsert
  by_cases hkey : key = makeKey exchange symbol
  · subst hkey
    simp only [true_and]
    split
    · rename_i prev hprev
      simp only [hprev, Option.mem_some_iff, forall_eq', ← not_le]
      split <;> simp [hprev]
    · rename_i hprev
      simp [hprev]
  · simp only [hkey, false_and, if_false]
    split
    · split <;> simp [hkey]
    · simp [hkey]

/-- Only a purge lowers what is stored. -/
theorem updateId_step (ht : s.lookup key = some t) (h : ¬ Purges key s o) :
    ∃ t', (step s o).lookup key = some t' ∧ t.updateId ≤ t'.updateId := by
  cases o with
  | upsert exchange symbol tick =>
    simp only [step, lookup_upsert]
    split
    · rename_i hnew
      exact ⟨tick, rfl, (hnew.2 t ht).le⟩
    · exact ⟨t, ht, le_rfl⟩
  | get exchange symbol => exact ⟨t, ht, le_rfl⟩
  | drainStale now maxAgeSecs =>
    have hkept : (step s (.drainStale now maxAgeSecs)).lookup key ≠ none := by
      intro hgone
      exact h ⟨by rw [ht]; rfl, hgone⟩
    obtain ⟨t', ht'⟩ := Option.ne_none_iff_exists'.1 hkept
    refine ⟨t', ht', ?_⟩
    simp only [step, drainStale, lookup_retain, ht, Option.filter_some] at ht'
    split at ht'
    · cases ht'
      exact le_rfl
    · cases ht'

theorem mem_readId_iff {id : ℕ} : id ∈ (readId key s o).toList ↔
    ∃ exchange symbol t, o = .get exchange symbol ∧ makeKey exchange symbol = key ∧ s.lookup key = some t ∧
      t.updateId = id := by
  cases o with
  | get exchange symbol =>
    simp only [readId, get]
    split
    · rename_i hkey
      subst hkey
      simp
    · rename_i hkey
      simp [hkey]
  | _ => simp [readId]

/-! ## Runs -/

/-- What is stored bounds from below what is served later. -/
theorem le_served (ht : s.lookup key = some t) (h : AllSteps step (fun s o => ¬ Purges key s o) s os) :
    ∀ id ∈ served key s os, t.updateId ≤ id := by
  induction os generalizing s t with
  | nil => exact fun id hid => absurd hid List.not_mem_nil
  | cons o os ih =>
    intro id hid
    obtain hnow | hlater := List.mem_append.1 hid
    · obtain ⟨exchange, symbol, t', -, -, ht', rfl⟩ := mem_readId_iff.1 hnow
      rw [ht, Option.some.injEq] at ht'
      exact (congrArg PriceTick.updateId ht').le
    · obtain ⟨t', ht', hle⟩ := updateId_step ht h.1
      exact hle.trans (ih ht' h.2 id hlater)

/-- **Between purges of a key, the frames served under it are in order**, whatever happens under other keys and however
the key is spelt. -/
theorem served_sorted (key : PriceKey) (s : Store) (os : List Op)
    (h : AllSteps step (fun s o => ¬ Purges key s o) s os) : (served key s os).Pairwise (· ≤ ·) := by
  induction os generalizing s with
  | nil => exact List.Pairwise.nil
  | cons o os ih =>
    refine List.pairwise_append.2 ⟨?_, ih (step s o) h.2, ?_⟩
    · cases readId key s o <;> simp
    · intro id hid id' hid'
      obtain ⟨exchange, symbol, t, rfl, -, ht, rfl⟩ := mem_readId_iff.1 hid
      exact le_served ht h.2 id' hid'

/-- Two spellings of one key, a stale frame after a newer one, and a purge of another key. -/
theorem served_sorted_reordered :
    let os : List Op := [.upsert "binance" "BTCUSDT" ⟨1, 2, 20, 100⟩, .upsert "binance" "OLD" ⟨1, 2, 1, 0⟩,
      .get "BINANCE" "btcusdt", .upsert "Binance" "btcusdt" ⟨3, 4, 19, 101⟩, .drainStale 101 60,
      .get "binance" "BTCUSDT"]
    (served ("binance", "BTCUSDT") ∅ os).Pairwise (· ≤ ·) :=
  served_sorted _ _ _ (by decide +kernel)

/-- The purge forgets the frame 20, so the frame 19 comes in behind it. -/
theorem older_frame_after_purge :
    ¬ (served ("binance", "BTCUSDT") ∅
      [.upsert "binance" "BTCUSDT" ⟨1, 2, 20, 0⟩, .get "binance" "BTCUSDT", .drainStale 120 60,
        .upsert "binance" "BTCUSDT" ⟨3, 4, 19, 121⟩, .get "binance" "BTCUSDT"]).Pairwise (· ≤ ·) := by
  decide +kernel

end Qtss.Notify.PriceTickStore
