import Qtss.Lib.ReadModifyWrite
import Qtss.Worker.LiveEntries
/-
# The settings of the range engine (`qtss-storage/src/range_engine.rs`)

| here | there |
| --- | --- |
| `defaultRangeEngineJson`, `mergeJsonDeep` | :13, :39 |
| `fetchRangeEngineJson`   | :58; `none` is that the row is not there |
| `Writer.clear`           | `clear_refresh_requested` (:83), what it upserts |
| `Writer.patch`           | `patch_range_engine_config_api` (qtss-api/src/routes/analysis.rs:169) |
| `Writer.upsert`, `delete` | `POST /config`, `DELETE /config/range_engine` (qtss-api/src/routes/config_admin.rs:60, :84) |
| `pointer`                | `Value::pointer`, keys only |

A PATCH and the clear at the end of a round of `engine_analysis_loop` (qtss-analysis/src/engine_loop.rs:1987) read the
row with one statement and write it with another, with no transaction around the two, so what is committed between them is
written over. The admin's writes read nothing: their read, of which `Writer.apply` makes no use, is at their write. A
statement that fails ends its writer; it is a writer that does not write.
-/

namespace Qtss.Storage.RangeEngine

def defaultRangeEngineJson : Json :=
  .obj [
    ("trading_range_params", .obj [
      ("lookback", .null), ("atr_period", .null), ("atr_sma_period", .null), ("require_range_regime", .null),
      ("rsi_period", .null), ("rsi_oversold", .null), ("rsi_overbought", .null), ("volume_avg_lookback", .null),
      ("volume_spike_ratio_full", .null), ("volume_spike_ratio_partial", .null)]),
    ("execution_gates", .obj [
      ("allow_long_open", .bool true), ("allow_short_open", .bool true), ("allow_all_closes", .bool true)]),
    ("worker", .obj [("refresh_requested", .bool false)])]

/-- `Map::insert`. -/
def insert (k : String) (v : Json) : List (String × Json) → List (String × Json)
  | [] => [(k, v)]
  | (j, x) :: fields => if j = k then (k, v) :: fields else (j, x) :: insert k v fields

mutual
def mergeJsonDeep : Json → Json → Json
  | .obj bm, .obj pm => .obj (mergeFields bm pm)
  | _, p => p

def mergeFields : List (String × Json) → List (String × Json) → List (String × Json)
  | bm, [] => bm
  | bm, (k, pv) :: pm =>
    match bm.lookup k with
    | some bv => mergeFields (insert k (mergeJsonDeep bv pv) bm) pm
    | none => mergeFields (insert k pv bm) pm
end

def fetchRangeEngineJson : Option Json → Json
  | some stored => mergeJsonDeep defaultRangeEngineJson stored
  | none => defaultRangeEngineJson

inductive Writer where
  | patch (p : Json)
  | clear
  | upsert (v : Json)
  | delete

def clearRefreshRequested (doc : Json) : Json :=
  match doc, doc.get "worker" with
  | .obj fields, some (.obj w) => .obj (insert "worker" (.obj (insert "refresh_requested" (.bool false) w)) fields)
  | doc, _ => doc

/-- The row after the writer, from the row that it has read. -/
def Writer.apply (stored : Option Json) : Writer → Option Json
  | .patch p => some (mergeJsonDeep (fetchRangeEngineJson stored) p)
  | .clear => some (clearRefreshRequested (fetchRangeEngineJson stored))
  | .upsert v => some v
  | .delete => none

def pointer : Json → List String → Option Json
  | v, [] => some v
  | v, k :: path => (v.get k).bind fun x => pointer x path

/-! ## Fields of an object -/

/-- No object has a key twice, as in a `Map`. -/
inductive Distinct : Json → Prop where
  | obj {fields} : (fields.map Prod.fst).Nodup → (∀ e ∈ fields, Distinct e.2) → Distinct (.obj fields)
  | leaf {v} : (∀ fields, v ≠ .obj fields) → Distinct v

def IsLeaf (v : Json) : Prop := ∀ fields, v ≠ .obj fields

variable {b p d v x : Json} {k j : String} {bm pm fields : List (String × Json)} {path : List String}

theorem lookup_cons_if : ((k, v) :: fields).lookup j = if j = k then some v else fields.lookup j := by
  rw [List.lookup_cons]
  by_cases h : j = k
  · simp [h]
  · simp [h, beq_false_of_ne h]

theorem lookup_insert : (insert k v fields).lookup j = if j = k then some v else fields.lookup j := by
  induction fields with
  | nil => rw [insert, lookup_cons_if]
  | cons e fields ih =>
    obtain ⟨i, y⟩ := e
    rw [insert, lookup_cons_if]
    by_cases hi : i = k
    · rw [if_pos hi, lookup_cons_if]
      simp only [hi]
      split <;> simp [*]
    · rw [if_neg hi, lookup_cons_if, ih]
      by_cases h : j = i
      · simp [h, hi]
      · simp [h]

theorem mem_insert {e : String × Json} (h : e ∈ insert k v fields) : e = (k, v) ∨ e ∈ fields := by
  induction fields with
  | nil => simpa [insert] using h
  | cons a fields ih =>
    obtain ⟨i, y⟩ := a
    rw [insert] at h
    split at h
    · rcases List.mem_cons.1 h with h | h
      · exact .inl h
      · exact .inr (by simp [h])
    · rcases List.mem_cons.1 h with h | h
      · exact .inr (by simp [h])
      · exact (ih h).imp_right fun h => by simp [h]

theorem nodup_insert (h : (fields.map Prod.fst).Nodup) : ((insert k v fields).map Prod.fst).Nodup := by
  induction fields with
  | nil => simp [insert]
  | cons a fields ih =>
    obtain ⟨i, y⟩ := a
    rw [List.map_cons, List.nodup_cons] at h
    rw [insert]
    split
    · next hi => simpa [hi] using h
    · next hi =>
      rw [List.map_cons, List.nodup_cons]
      refine ⟨fun hmem => ?_, ih h.2⟩
      obtain ⟨e, he, rfl⟩ := List.mem_map.1 hmem
      rcases mem_insert he with rfl | he
      · exact hi rfl
      · exact h.1 (List.mem_map.2 ⟨e, he, rfl⟩)

theorem mergeFields_cons : mergeFields bm ((k, v) :: pm) =
    mergeFields (insert k ((bm.lookup k).elim v fun bv => mergeJsonDeep bv v) bm) pm := by
  rw [mergeFields]
  cases bm.lookup k <;> rfl

theorem lookup_mergeFields (h : (pm.map Prod.fst).Nodup) : (mergeFields bm pm).lookup j =
    match pm.lookup j with
    | some pv => some ((bm.lookup j).elim pv fun bv => mergeJsonDeep bv pv)
    | none => bm.lookup j := by
  induction pm generalizing bm with
  | nil => rw [mergeFields]; rfl
  | cons e pm ih =>
    obtain ⟨k, pv⟩ := e
    rw [List.map_cons, List.nodup_cons] at h
    rw [mergeFields_cons, ih h.2, lookup_cons_if, lookup_insert]
    by_cases hj : j = k
    · subst hj
      have hnone : pm.lookup j = none := List.lookup_eq_none_iff.2 fun e he => by
        have hne : j ≠ e.1 := fun hje => h.1 (List.mem_map.2 ⟨e, he, hje.symm⟩)
        simpa using hne
      simp [hnone]
    · simp [hj]

theorem Distinct.of_lookup (h : Distinct (.obj fields)) (hk : fields.lookup k = some v) : Distinct v := by
  obtain ⟨_, _, rfl, -⟩ := List.lookup_eq_some_iff.1 hk
  cases h with
  | obj _ hall => exact hall (k, v) (by simp)
  | leaf h => exact absurd rfl (h _)

theorem Distinct.nodup (h : Distinct (.obj fields)) : (fields.map Prod.fst).Nodup := by
  cases h with
  | obj hnodup _ => exact hnodup
  | leaf h => exact absurd rfl (h fields)

theorem merge_leaf (hp : IsLeaf p) (b : Json) : mergeJsonDeep b p = p := by
  cases p with
  | obj fields => exact absurd rfl (hp fields)
  | _ => cases b <;> rfl

theorem merge_onto_leaf (hb : IsLeaf b) (p : Json) : mergeJsonDeep b p = p := by
  cases b with
  | obj fields => exact absurd rfl (hb fields)
  | _ => cases p <;> rfl

theorem distinct_insert (hv : Distinct v) (h : Distinct (.obj fields)) : Distinct (.obj (insert k v fields)) := by
  refine .obj (nodup_insert h.nodup) fun e he => ?_
  rcases mem_insert he with rfl | he
  · exact hv
  · cases h with
    | obj _ hall => exact hall e he
    | leaf h => exact absurd rfl (h fields)

theorem distinct_mergeFields (hb : Distinct (.obj bm)) (hpm : ∀ e ∈ pm, Distinct e.2)
    (ih : ∀ e ∈ pm, ∀ b, Distinct b → Distinct (mergeJsonDeep b e.2)) : Distinct (.obj (mergeFields bm pm)) := by
  induction pm generalizing bm with
  | nil => rwa [mergeFields]
  | cons e pm ihpm =>
    obtain ⟨k, pv⟩ := e
    rw [mergeFields_cons]
    refine ihpm (distinct_insert ?_ hb) (fun e he => hpm e (by simp [he])) fun e he => ih e (by simp [he])
    cases hk : bm.lookup k with
    | none => exact hpm (k, pv) (by simp)
    | some bv => exact ih (k, pv) (by simp) bv (hb.of_lookup hk)

theorem distinct_merge (hp : Distinct p) : ∀ b, Distinct b → Distinct (mergeJsonDeep b p) := by
  induction hp with
  | obj hnodup hall ih =>
    intro b hb
    cases b with
    | obj bm =>
      rw [mergeJsonDeep]
      exact distinct_mergeFields hb hall ih
    | _ => exact .obj hnodup hall
  | leaf h =>
    intro b _
    rw [merge_leaf h]
    exact .leaf h

/-! ## What a patch says of a setting -/

inductive Word where
  | silent
  | gone
  | value (v : Json)

/-- Of what stands at the end of a path. -/
def word : Json → List String → Word
  | p, [] => .value p
  | .obj pm, k :: path =>
    match pm.lookup k with
    | some pv => word pv path
    | none => .silent
  | _, _ :: _ => .gone

def Word.onto (cur : Option Json) : Word → Option Json
  | .silent => cur
  | .gone => none
  | .value v => some (cur.elim v fun c => mergeJsonDeep c v)

theorem pointer_eq_onto (v : Json) (path : List String) : pointer v path = (word v path).onto none := by
  induction path generalizing v with
  | nil => rfl
  | cons k path ih =>
    cases v with
    | obj fields =>
      simp only [pointer, Json.get, word]
      cases fields.lookup k with
      | none => rfl
      | some x => exact ih x
    | _ => rfl

/-- **A patch settles the places that it speaks of and no others.** -/
theorem pointer_merge (b : Json) (hp : Distinct p) (path : List String) :
    pointer (mergeJsonDeep b p) path = (word p path).onto (pointer b path) := by
  induction path generalizing b p with
  | nil => rfl
  | cons k path ih =>
    cases p with
    | obj pm =>
      cases b with
      | obj bm =>
        simp only [mergeJsonDeep, pointer, Json.get, word, lookup_mergeFields hp.nodup]
        cases hk : pm.lookup k with
        | none => rfl
        | some pv =>
          cases bm.lookup k with
          | none => exact pointer_eq_onto pv path
          | some bv => exact ih bv (hp.of_lookup hk)
      | _ => exact pointer_eq_onto (.obj pm) (k :: path)
    | _ => cases b <;> rfl

theorem word_eq_value : word v path = .value x ↔ pointer v path = some x := by
  rw [pointer_eq_onto]
  cases word v path <;> simp [Word.onto]

theorem word_merge_gone (b : Json) (hp : Distinct p) (h : word p path = .gone) :
    word (mergeJsonDeep b p) path = .gone := by
  induction path generalizing b p with
  | nil => simp [word] at h
  | cons k path ih =>
    cases p with
    | obj pm =>
      cases b with
      | obj bm =>
        simp only [word] at h
        simp only [mergeJsonDeep, word, lookup_mergeFields hp.nodup]
        cases hk : pm.lookup k with
        | none => simp [hk] at h
        | some pv =>
          simp only [hk] at h
          cases bm.lookup k with
          | none => exact h
          | some bv => exact ih bv (hp.of_lookup hk) h
      | _ => exact h
    | _ => cases b <;> rfl

/-! ## Writers one after another -/

/-- A place that the skeleton fills. -/
structure Setting (path : List String) (d : Json) : Prop where
  word : word defaultRangeEngineJson path = .value d
  leaf : IsLeaf d

def flagPath : List String := ["worker", "refresh_requested"]

def Writer.Distinct : Writer → Prop
  | .patch p => RangeEngine.Distinct p
  | .upsert v => RangeEngine.Distinct v
  | _ => True

/-- Of a setting other than the flag. -/
def Writer.word (path : List String) : Writer → Word
  | .patch p => RangeEngine.word p path
  | .clear => .silent
  | .upsert v =>
    match RangeEngine.word v path with
    | .silent => RangeEngine.word defaultRangeEngineJson path
    | w => w
  | .delete => RangeEngine.word defaultRangeEngineJson path

/-- What is read after a word: a section that was cut off comes back with the skeleton. -/
def Follows (d : Json) (old new : Option Json) : Word → Prop
  | .silent => new = old ∨ old = none ∧ new = some d
  | .gone => new = none
  | .value x => IsLeaf x → new = some x

def reading (stored : Option Json) (path : List String) : Option Json := pointer (fetchRangeEngineJson stored) path

section
variable (hd : Setting path d)
include hd

theorem reading_some (hv : Distinct v) : reading (some v) path =
    match word v path with
    | .silent => some d
    | .gone => none
    | .value x => some x := by
  rw [reading, fetchRangeEngineJson, pointer_merge _ hv, word_eq_value.1 hd.word]
  cases word v path with
  | silent => rfl
  | gone => rfl
  | value x => simp [Word.onto, merge_onto_leaf hd.leaf]

theorem reading_none : reading none path = some d := word_eq_value.1 hd.word

theorem reading_of_pointer (hv : Distinct v) (h : pointer v path = some x) : reading (some v) path = some x := by
  rw [reading_some hd hv, word_eq_value.2 h]

theorem reading_of_pointer_none (hv : Distinct v) (h : pointer v path = none) :
    reading (some v) path = none ∨ reading (some v) path = some d := by
  rw [reading_some hd hv]
  cases hw : word v path with
  | silent => exact .inr rfl
  | gone => exact .inl rfl
  | value x => simp [word_eq_value.1 hw] at h

/-- The document that was read, written back. -/
theorem follows_same {doc : Json} (hdoc : Distinct doc) : Follows d (pointer doc path) (reading (some doc) path) .silent := by
  cases h : pointer doc path with
  | none => exact (reading_of_pointer_none hd hdoc h).imp_right fun h => ⟨rfl, h⟩
  | some x => exact .inl (reading_of_pointer hd hdoc h)

theorem follows_merge {doc : Json} (hdoc : Distinct doc) (hp : Distinct p) :
    Follows d (pointer doc path) (reading (some (mergeJsonDeep doc p)) path) (word p path) := by
  have hpointer := pointer_merge doc hp path
  have hmerged := distinct_merge hp doc hdoc
  cases hw : word p path with
  | silent =>
    rw [hw, Word.onto] at hpointer
    have hsame := follows_same hd hmerged
    rwa [hpointer] at hsame
  | gone =>
    rw [Follows, reading_some hd hmerged, word_merge_gone doc hp hw]
  | value x =>
    rw [hw] at hpointer
    intro hx
    refine reading_of_pointer hd hmerged (hpointer.trans ?_)
    cases pointer doc path <;> simp [Word.onto, merge_leaf hx]

end

theorem distinct_default : Distinct defaultRangeEngineJson := by
  unfold defaultRangeEngineJson
  refine .obj (by decide) fun e he => ?_
  simp only [List.mem_cons, List.not_mem_nil, or_false] at he
  rcases he with rfl | rfl | rfl
  all_goals
    refine .obj (by decide) fun e he => .leaf ?_
    simp only [List.mem_cons, List.not_mem_nil, or_false] at he
    aesop

def StoredDistinct (stored : Option Json) : Prop := ∀ v, stored = some v → Distinct v

theorem distinct_fetch {stored : Option Json} (h : StoredDistinct stored) : Distinct (fetchRangeEngineJson stored) := by
  cases stored with
  | none => exact distinct_default
  | some v => exact distinct_merge (h v rfl) _ distinct_default

theorem distinct_clear (h : Distinct v) : Distinct (clearRefreshRequested v) := by
  unfold clearRefreshRequested
  split
  · next fields w hw =>
    exact distinct_insert (distinct_insert (.leaf (by simp)) (h.of_lookup hw)) h
  · exact h

theorem distinct_apply {stored : Option Json} (h : StoredDistinct stored) {w : Writer} (hw : w.Distinct) :
    StoredDistinct (w.apply stored) := by
  cases w with
  | patch p =>
    rintro _ ⟨⟩
    exact distinct_merge hw _ (distinct_fetch h)
  | clear =>
    rintro _ ⟨⟩
    exact distinct_clear (distinct_fetch h)
  | upsert v =>
    rintro _ ⟨⟩
    exact hw
  | delete => rintro _ ⟨⟩

/-- The only setting of the worker's section. -/
theorem worker_setting {rest : List String} (hd : Setting ("worker" :: rest) d) :
    "worker" :: rest = flagPath ∨ ∃ m rest', rest = m :: rest' ∧ m ≠ "refresh_requested" := by
  have hword : word (.obj [("refresh_requested", .bool false)]) rest = .value d := hd.word
  match rest with
  | [] =>
    simp only [word, Word.value.injEq] at hword
    exact absurd hword.symm (hd.leaf _)
  | m :: rest' =>
    by_cases hm : m = "refresh_requested"
    · subst hm
      cases rest' with
      | nil => exact .inl rfl
      | cons => simp [word] at hword
    · exact .inr ⟨m, rest', rfl, hm⟩

/-- The clear sets the flag and nothing else. -/
theorem pointer_clear (hd : Setting path d) (hflag : path ≠ flagPath) (v : Json) :
    pointer (clearRefreshRequested v) path = pointer v path := by
  unfold clearRefreshRequested
  split
  · next fields w hw =>
    cases path with
    | nil =>
      have hword := hd.word
      simp only [word, Word.value.injEq] at hword
      exact absurd hword.symm (hd.leaf _)
    | cons k rest =>
      simp only [pointer, Json.get, lookup_insert]
      by_cases hk : k = "worker"
      · subst hk
        obtain ⟨m, rest', rfl, hm⟩ := (worker_setting hd).resolve_left hflag
        have hsection : fields.lookup "worker" = some (.obj w) := hw
        simp [hsection, pointer, Json.get, lookup_insert, hm]
      · simp [hk]
  · rfl

/-- **What one writer does to a setting.** -/
theorem follows_apply {stored : Option Json} (hstored : StoredDistinct stored) {w : Writer} (hw : w.Distinct)
    (hd : Setting path d) (hflag : path ≠ flagPath) :
    Follows d (reading stored path) (reading (w.apply stored) path) (w.word path) := by
  have hfetch := distinct_fetch hstored
  cases w with
  | patch p => exact follows_merge hd hfetch hw
  | clear =>
    have hsame := follows_same hd (distinct_clear hfetch)
    rwa [pointer_clear hd hflag] at hsame
  | upsert v =>
    have hread := reading_some hd hw
    simp only [Writer.apply, Writer.word]
    cases hv : word v path with
    | silent =>
      rw [hv] at hread
      rw [hd.word]
      exact fun _ => hread
    | gone => simpa [Follows, hv] using hread
    | value x =>
      rw [hv] at hread
      exact fun _ => hread
  | delete =>
    rw [Writer.word, hd.word]
    exact fun _ => reading_none hd

theorem distinct_foldl {ws : List Writer} (hws : ∀ w ∈ ws, w.Distinct) {stored : Option Json}
    (hstored : StoredDistinct stored) : StoredDistinct (ws.foldl Writer.apply stored) := by
  induction ws generalizing stored with
  | nil => exact hstored
  | cons w ws ih =>
    exact ih (fun u hu => hws u (by simp [hu])) (distinct_apply hstored (hws w (by simp)))

/-- Writers that are silent on a setting leave it, or bring back the default. -/
theorem reading_silent {ws : List Writer} (hws : ∀ w ∈ ws, w.Distinct) {stored : Option Json}
    (hstored : StoredDistinct stored) (hd : Setting path d) (hflag : path ≠ flagPath)
    (hsilent : ∀ w ∈ ws, w.word path = .silent) :
    Follows d (reading stored path) (reading (ws.foldl Writer.apply stored) path) .silent := by
  induction ws generalizing stored with
  | nil => exact .inl rfl
  | cons w ws ih =>
    have hw := hws w (by simp)
    have hstep := follows_apply hstored hw hd hflag
    rw [hsilent w (by simp)] at hstep
    have hrest := ih (fun u hu => hws u (by simp [hu])) (distinct_apply hstored hw) fun u hu => hsilent u (by simp [hu])
    rcases hstep with hstep | ⟨hnone, hstep⟩
    · rwa [hstep] at hrest
    · rcases hrest with hrest | ⟨hrest, -⟩
      · exact .inr ⟨hnone, hrest.trans hstep⟩
      · exact absurd (hrest.symm.trans hstep) (by simp)

/-- A setting reads as the last of the writers that spoke of it left it. -/
structure LastWord (ws : List Writer) (stored : Option Json) (path : List String) (d : Json) : Prop where
  untouched : (∀ w ∈ ws, w.word path = .silent) → reading stored path = some d
  value : ∀ before w after x, ws = before ++ w :: after → (∀ u ∈ after, u.word path = .silent) →
    w.word path = .value x → IsLeaf x → reading stored path = some x
  gone : ∀ before w after, ws = before ++ w :: after → (∀ u ∈ after, u.word path = .silent) →
    w.word path = .gone → reading stored path = none ∨ reading stored path = some d

theorem lastWord_foldl {ws : List Writer} (hws : ∀ w ∈ ws, w.Distinct) (hd : Setting path d) (hflag : path ≠ flagPath) :
    LastWord ws (ws.foldl Writer.apply none) path d := by
  have hnone : StoredDistinct none := by rintro _ ⟨⟩
  -- the writers after the last word
  have hlast : ∀ before w after, ws = before ++ w :: after → (∀ u ∈ after, u.word path = .silent) →
      ∃ old mid, Follows d old mid (w.word path) ∧ Follows d mid (reading (ws.foldl Writer.apply none) path) .silent := by
    rintro before w after rfl hafter
    have hbefore : StoredDistinct (before.foldl Writer.apply none) :=
      distinct_foldl (fun u hu => hws u (by simp [hu])) hnone
    have hw := hws w (by simp)
    rw [List.foldl_append, List.foldl_cons]
    exact ⟨_, _, follows_apply hbefore hw hd hflag,
      reading_silent (fun u hu => hws u (by simp [hu])) (distinct_apply hbefore hw) hd hflag hafter⟩
  refine ⟨fun h => ?_, fun before w after x hsplit hafter hword hx => ?_, fun before w after hsplit hafter hword => ?_⟩
  · rcases reading_silent hws hnone hd hflag h with h | ⟨h, -⟩
    · exact h.trans (reading_none hd)
    · exact absurd (h.symm.trans (reading_none hd)) (by simp)
  · obtain ⟨old, mid, hstep, hrest⟩ := hlast before w after hsplit hafter
    rw [hword] at hstep
    rcases hrest with hrest | ⟨hmid, -⟩
    · exact hrest.trans (hstep hx)
    · exact absurd (hmid.symm.trans (hstep hx)) (by simp)
  · obtain ⟨old, mid, hstep, hrest⟩ := hlast before w after hsplit hafter
    rw [hword, Follows] at hstep
    rcases hrest with hrest | ⟨-, hrest⟩
    · exact .inl (hrest.trans hstep)
    · exact .inr hrest

/-! ## Writers that overlap -/

section
open ReadModifyWrite Runs
open scoped List

variable (writers : ℕ → Writer)

/-- The row and the writers, each between its statements. -/
def table (os : List (Access ℕ)) : Cell ℕ (Option Json) :=
  run (step fun i stored => (writers i).apply stored) (start none) os

def gates : List String := ["allow_long_open", "allow_short_open", "allow_all_closes"]

theorem gate_setting (hk : k ∈ gates) : Setting ["execution_gates", k] (.bool true) := by
  simp only [gates, List.mem_cons, List.not_mem_nil, or_false] at hk
  rcases hk with rfl | rfl | rfl
  all_goals exact ⟨rfl, by simp [IsLeaf]⟩

theorem gate_eq (stored : Option Json) : Worker.LiveEntries.gate (fetchRangeEngineJson stored) k =
    ((reading stored ["execution_gates", k]).bind Json.asBool).getD true := by
  simp only [Worker.LiveEntries.gate, reading, pointer, Option.bind_fun_some]

theorem distinct_table (hwriters : ∀ i, (writers i).Distinct) (os : List (Access ℕ)) :
    Keeps StoredDistinct 0 (table writers os) := by
  refine keeps_run (fun i v _ hv => distinct_apply hv (hwriters i)) ⟨by rintro _ ⟨⟩, le_rfl, by simp [start]⟩
    (allSteps_of_forall (fun s o => ?_) _ os)
  cases o <;> simp [Late]

/-- **A gate that a PATCH closes stays closed, however the writers overlap,** as long as those that write have read after
it, and none of them opens it. -/
theorem closed_gate_stays_closed (hwriters : ∀ i, (writers i).Distinct) (hk : k ∈ gates) {i : ℕ} (before after : List (Access ℕ))
    (hi : writers i = .patch p) (hclose : word p ["execution_gates", k] = .value (.bool false))
    (hread : ((table writers before).seen i).isSome)
    (hlate : AllSteps (step fun i stored => (writers i).apply stored) (Late ((table writers before).log.length + 1))
      (table writers (before ++ [.write i])) after)
    (hafter : ∀ j, .write j ∈ after → (writers j).word ["execution_gates", k] = .silent ∨
      (writers j).word ["execution_gates", k] = .value (.bool false)) :
    Worker.LiveEntries.gate (fetchRangeEngineJson (table writers (before ++ .write i :: after)).value) k = false := by
  have hd := gate_setting hk
  have hflag : ["execution_gates", k] ≠ flagPath := by simp [flagPath]
  have hleaf : IsLeaf (.bool false) := by simp [IsLeaf]
  obtain ⟨⟨u, n⟩, hseen⟩ := Option.isSome_iff_exists.1 hread
  have hu : StoredDistinct u := (distinct_table writers hwriters before).2.2 i u n hseen (Nat.zero_le n)
  have hclosed : ∀ j stored, StoredDistinct stored → (writers j).word ["execution_gates", k] = .value (.bool false) →
      reading ((writers j).apply stored) ["execution_gates", k] = some (.bool false) := by
    intro j stored hstored hword
    have hstep := follows_apply hstored (hwriters j) hd hflag
    rw [hword] at hstep
    exact hstep hleaf
  have hwritten := keeps_written (f := fun i stored => (writers i).apply stored) hseen
    (P := fun stored => StoredDistinct stored ∧ reading stored ["execution_gates", k] = some (.bool false))
    ⟨distinct_apply hu (hwriters i), hclosed i u hu (by rw [hi]; exact hclose)⟩
  have hrun := keeps_run (fun j stored hj hstored => ?_) hwritten hlate
  · rw [gate_eq, List.append_cons, table, run_append]
    rw [hrun.1.2]
    rfl
  · refine ⟨distinct_apply hstored.1 (hwriters j), ?_⟩
    rcases hafter j hj with hword | hword
    · have hstep := follows_apply hstored.1 (hwriters j) hd hflag
      rw [hword, hstored.2] at hstep
      rcases hstep with hstep | ⟨hnone, -⟩
      · exact hstep
      · exact absurd hnone (by simp)
    · exact hclosed j stored hstored.1 hword

end

section
open ReadModifyWrite Runs
open scoped List

def closeLongs : Json := .obj [("execution_gates", .obj [("allow_long_open", .bool false)])]

/-- A PATCH and the rounds of the worker. -/
def closing : ℕ → Writer
  | 0 => .patch closeLongs
  | _ => .clear

theorem distinct_closing (i : ℕ) : (closing i).Distinct := by
  cases i with
  | zero =>
    refine .obj (by simp) fun e he => ?_
    rw [List.mem_singleton.1 he]
    exact .obj (by simp) fun e he => .leaf (by simp [List.mem_singleton.1 he])
  | succ i => trivial

theorem closed_gate_stays_closed_closing : Worker.LiveEntries.gate
    (fetchRangeEngineJson (table closing ([.read 0] ++ .write 0 :: [.read 1, .write 1])).value) "allow_long_open" = false := by
  refine closed_gate_stays_closed closing distinct_closing (by simp [gates]) (i := 0) [.read 0] [.read 1, .write 1]
    rfl rfl rfl ?_ fun j hj => ?_
  · refine ⟨trivial, fun v n hn => ?_, trivial⟩
    simp [table, step, start] at hn ⊢
    omega
  · obtain rfl : j = 1 := by simpa using hj
    exact .inl rfl

/-- A round that has read before the PATCH opens the gate again. -/
example : Worker.LiveEntries.gate
    (fetchRangeEngineJson (table closing [.read 0, .read 1, .write 0, .write 1]).value) "allow_long_open" = true := by
  rfl

end

end Qtss.Storage.RangeEngine
