import Qtss.Api.OauthToken
import Qtss.Lib.SingleUse
/-
# A refresh token is used once

The row is read, and the UPDATE that revokes it does not ask whether it still is as it was read. A call that is alone with
its token between the two finds it revoked by the calls before.
-/

namespace Qtss.Api.Oauth
open Runs SingleUse

variable {env : Env} {reqs : ℕ → TokenRequest} {w : World} {i j : ℕ} {hash : String} {a : Answers} {t t' : RefreshTokens}

/-- Each token leads to one response at most. -/
def UsedOnce (w : World) : Prop := (w.responses.map (·.2)).Nodup

/-- A token that was revoked or expired when the call started leads to none. -/
def NoneFromDead (w : World) : Prop := ∀ r ∈ w.responses, w.startedDead r.1 = false

/-- The hash of the token that the next statement of a call revokes. -/
def At.revoking : At → Option String
  | .token _ hash _ => some hash
  | _ => none

/-- The UPDATE finds the token not revoked. -/
def FindsUnrevoked (w : World) : Op → Prop
  | .next i a => ∀ hash ∈ (w.progress i).revoking, a.refreshTokens.isOk →
      ∀ rt ∈ w.refreshTokens, rt.tokenHash = hash → rt.revokedAt = none
  | _ => True

instance (w : World) : ∀ op, Decidable (FindsUnrevoked w op)
  | .next _ _ => inferInstanceAs (Decidable (∀ _ ∈ _, _))
  | .issue _ _ _ | .wait _ => inferInstanceAs (Decidable True)

instance (w : World) : Decidable (UsedOnce w) := inferInstanceAs (Decidable (List.Nodup _))

instance (w : World) : Decidable (NoneFromDead w) := inferInstanceAs (Decidable (∀ _ ∈ _, _))

/-! ## What a step does -/

/-- The hash a call has revoked the token of. -/
def At.claimed : At → Option String
  | .revoked _ hash _ | .org _ hash _ _ | .roles _ hash _ _ _ => some hash
  | _ => none

/-- The steps of a call. -/
inductive Next (w : World) (i : ℕ) (a : Answers) : World → Prop
  | finished (result : Except OAuthErr TokenResponse) (hat : w.progress i = .done result) : Next w i a w
  | refused (e : OAuthErr) (dead : Bool) (hat : w.progress i = .start) : Next w i a
      ({ w with startedDead := Function.update w.startedDead i dead }.setAt i (.done (.error e)))
  | begins (row : OauthClientRow) (hash : String) (hat : w.progress i = .start) : Next w i a
      ({ w with startedDead := Function.update w.startedDead i (w.dead hash) }.setAt i (.client row hash))
  | fails (e : OAuthErr) (hat : ∀ result, w.progress i ≠ .done result) : Next w i a (w.setAt i (.done (.error e)))
  | reads (row : OauthClientRow) (hash : String) (rt : RefreshToken) (hat : w.progress i = .client row hash)
      (hmem : rt ∈ w.refreshTokens) (hhash : rt.tokenHash = hash) (hrevoked : rt.revokedAt = none)
      (hexpires : ¬ rt.expiresAt < w.now) : Next w i a (w.setAt i (.token row hash rt))
  | revokes (row : OauthClientRow) (hash : String) (rt : RefreshToken) (hat : w.progress i = .token row hash rt)
      (hok : a.refreshTokens = .ok ()) : Next w i a ({ w with
        refreshTokens := revoke w.refreshTokens hash w.now
        claims := w.claims ++ [(i, hash)] }.setAt i (.revoked row hash rt))
  | goesOn (hash : String) (at_ : At) (hat : (w.progress i).claimed = some hash) (hto : at_.claimed = some hash) :
      Next w i a (w.setAt i at_)
  | responds (hash : String) (rt : RefreshToken) (response : TokenResponse) (t : RefreshTokens)
      (hat : (w.progress i).claimed = some hash) (hinsert : insertToken w.refreshTokens rt = some t) : Next w i a
      ({ w with refreshTokens := t, responses := w.responses ++ [(i, hash)] }.setAt i (.done (.ok response)))

theorem readClient_ok {req : TokenRequest} {row : OauthClientRow} (h : readClient env req a = .ok (row, hash)) :
    ∃ raw, req.refreshToken = some raw ∧ hash = env.hashToken raw := by
  unfold readClient at h
  split at h
  · cases h
  · cases h
  · split at h
    · cases h
    · split at h
      · cases h
      · split at h
        · cases h
        next raw hraw =>
          cases h
          exact ⟨raw, hraw, rfl⟩

theorem readToken_ok {now : DateTime} {row : OauthClientRow} {rt : RefreshToken}
    (h : readToken t now row hash a = .ok rt) :
    rt ∈ t ∧ rt.tokenHash = hash ∧ rt.revokedAt = none ∧ ¬ rt.expiresAt < now := by
  unfold readToken at h
  split at h
  · cases h
  · split at h
    · cases h
    next rt' hfind =>
      split at h
      · cases h
      next hrevoked =>
        split at h
        · cases h
        next hexpires =>
          cases h
          have hcond := List.find?_some hfind
          simp only [Bool.and_eq_true, decide_eq_true_eq] at hcond
          refine ⟨List.mem_of_find?_eq_some hfind, hcond.1, ?_, hexpires⟩
          simpa using hrevoked

theorem updateRevoked_ok (h : updateRevoked a = .ok ()) : a.refreshTokens = .ok () := by
  unfold updateRevoked at h
  cases hok : a.refreshTokens with
  | error e =>
    rw [hok] at h
    cases h
  | ok u => rfl

theorem finishTokenIssue_ok {now : DateTime} {clientUuid userId : Uuid} {scope : Option String} {response : TokenResponse}
    (h : finishTokenIssue env t now clientUuid userId scope a = .ok (response, t')) :
    ∃ rt, insertToken t rt = some t' := by
  unfold finishTokenIssue at h
  split at h
  · cases h
  · split at h
    · cases h
    · split at h
      · cases h
      next hinsert =>
        cases h
        exact ⟨_, hinsert⟩

theorem next_cases (env : Env) (reqs : ℕ → TokenRequest) (w : World) (i : ℕ) (a : Answers) :
    Next w i a (next env reqs w i a) := by
  unfold next
  cases hat : w.progress i with
  | start =>
    simp only
    split
    next e _ => exact .refused e _ hat
    next row hash hread =>
      obtain ⟨raw, hraw, rfl⟩ := readClient_ok hread
      rw [hraw]
      exact .begins row _ hat
  | client row hash =>
    simp only
    split
    next e _ => exact .fails e (by simp [hat])
    next rt hread =>
      obtain ⟨hmem, hhash, hrevoked, hexpires⟩ := readToken_ok hread
      exact .reads row hash rt hat hmem hhash hrevoked hexpires
  | token row hash rt =>
    simp only
    split
    next e _ => exact .fails e (by simp [hat])
    next hok => exact .revokes row hash rt hat (updateRevoked_ok hok)
  | revoked row hash rt =>
    simp only
    split
    next e _ => exact .fails e (by simp [hat])
    · exact .goesOn hash _ (by rw [hat]; rfl) rfl
  | org row hash rt org =>
    simp only
    split
    next e _ => exact .fails e (by simp [hat])
    · exact .goesOn hash _ (by rw [hat]; rfl) rfl
  | roles row hash rt org roles =>
    simp only
    split
    next e _ => exact .fails e (by simp [hat])
    next response t hissue =>
      obtain ⟨rt', hinsert⟩ := finishTokenIssue_ok hissue
      exact .responds hash rt' response t (by rw [hat]; rfl) hinsert
  | done result => exact .finished result hat

/-! ## The table -/

/-- Every row is still there, and what is revoked stays so. -/
def Later (t t' : RefreshTokens) : Prop := ∀ rt ∈ t, ∃ rt' ∈ t', rt'.tokenHash = rt.tokenHash ∧
  rt'.expiresAt = rt.expiresAt ∧ (rt.revokedAt.isSome → rt'.revokedAt.isSome)

def Unique (t : RefreshTokens) : Prop := (t.map (·.tokenHash)).Nodup

theorem later_refl (t : RefreshTokens) : Later t t := fun rt h => ⟨rt, h, rfl, rfl, id⟩

theorem later_revoke (t : RefreshTokens) (hash : String) (now : DateTime) : Later t (revoke t hash now) := by
  intro rt h
  refine ⟨_, List.mem_map_of_mem h, ?_⟩
  split
  · exact ⟨rfl, rfl, fun _ => rfl⟩
  · exact ⟨rfl, rfl, id⟩

theorem unique_revoke (h : Unique t) (hash : String) (now : DateTime) : Unique (revoke t hash now) := by
  have hmap : (revoke t hash now).map (·.tokenHash) = t.map (·.tokenHash) := by
    rw [revoke, List.map_map]
    refine List.map_congr_left fun rt _ => ?_
    simp only [Function.comp_apply]
    split <;> rfl
  rw [Unique, hmap]
  exact h

theorem insertToken_eq_some {rt : RefreshToken} (h : insertToken t rt = some t') :
    t' = t ++ [rt] ∧ ∀ old ∈ t, old.tokenHash ≠ rt.tokenHash := by
  unfold insertToken at h
  split at h
  · cases h
  next hnew =>
    cases h
    refine ⟨rfl, fun old hold heq => hnew (List.any_eq_true.2 ⟨old, hold, ?_⟩)⟩
    simpa using heq

theorem later_insertToken {rt : RefreshToken} (h : insertToken t rt = some t') : Later t t' := by
  rw [(insertToken_eq_some h).1]
  exact fun old hold => ⟨old, List.mem_append_left _ hold, rfl, rfl, id⟩

theorem unique_insertToken {rt : RefreshToken} (hu : Unique t) (h : insertToken t rt = some t') : Unique t' := by
  obtain ⟨rfl, hnew⟩ := insertToken_eq_some h
  rw [Unique, List.map_append, List.map_singleton, ← List.concat_eq_append]
  refine List.Nodup.concat ?_ hu
  intro hmem
  obtain ⟨old, hold, heq⟩ := List.mem_map.1 hmem
  exact hnew old hold heq

/-- Another grant's token, when its INSERT succeeds. -/
theorem later_getD_insertToken (t : RefreshTokens) (rt : RefreshToken) : Later t ((insertToken t rt).getD t) := by
  cases h : insertToken t rt with
  | none => exact later_refl t
  | some t' => exact later_insertToken h

theorem unique_getD_insertToken (hu : Unique t) (rt : RefreshToken) : Unique ((insertToken t rt).getD t) := by
  cases h : insertToken t rt with
  | none => exact hu
  | some t' => exact unique_insertToken hu h

theorem dead_later {now : DateTime} (hdead : w.dead hash) (hlater : Later w.refreshTokens t) (hnow : w.now ≤ now) :
    World.dead { w with refreshTokens := t, now := now } hash := by
  obtain ⟨rt, hmem, hrt⟩ := List.any_eq_true.1 hdead
  simp only [Bool.and_eq_true, Bool.or_eq_true, decide_eq_true_eq] at hrt
  obtain ⟨rt', hmem', hhash, hexpires, hrevoked⟩ := hlater rt hmem
  refine List.any_eq_true.2 ⟨rt', hmem', ?_⟩
  simp only [Bool.and_eq_true, Bool.or_eq_true, decide_eq_true_eq]
  refine ⟨hhash.trans hrt.1, ?_⟩
  rcases hrt.2 with hr | hx
  · exact .inl (hrevoked hr)
  · right
    rw [hexpires]
    exact Int.lt_of_lt_of_le hx hnow

/-! ## What holds throughout -/

/-- A call that claims has made its UPDATE, a response is of a call that has claimed and is over, and a call that started
on a dead token has failed, or is about to. -/
structure Inv (w : World) : Prop where
  unique : Unique w.refreshTokens
  there : ∀ i row hash rt, w.progress i = .token row hash rt → ∃ r ∈ w.refreshTokens, r.tokenHash = hash
  claimed : ∀ i hash, (w.progress i).claimed = some hash → (i, hash) ∈ w.claims
  answered : ∀ r ∈ w.responses, r ∈ w.claims ∧ ∃ response, w.progress r.1 = .done (.ok response)
  once : w.responses.Nodup
  dead : ∀ i, w.startedDead i → (∃ e, w.progress i = .done (.error e)) ∨
    ∃ row hash, w.progress i = .client row hash ∧ w.dead hash

theorem inv_start (now : DateTime) : Inv (.start now) where
  unique := List.nodup_nil
  there i row hash rt h := by cases h
  claimed i hash h := by cases h
  answered r h := by cases h
  once := List.nodup_nil
  dead i h := by cases h

theorem Inv.table {now : DateTime} (h : Inv w) (hlater : Later w.refreshTokens t) (hunique : Unique t)
    (hnow : w.now ≤ now) : Inv { w with refreshTokens := t, now := now } where
  unique := hunique
  there i row hash rt hat := by
    obtain ⟨r, hr, rfl⟩ := h.there i row hash rt hat
    obtain ⟨r', hr', hhash, -⟩ := hlater r hr
    exact ⟨r', hr', hhash⟩
  claimed := h.claimed
  answered := h.answered
  once := h.once
  dead i hi := by
    rcases h.dead i hi with hfailed | ⟨row, hash, hat, hdead⟩
    · exact .inl hfailed
    · exact .inr ⟨row, hash, hat, dead_later hdead hlater hnow⟩

@[simp] theorem progress_setAt_self (w : World) (i : ℕ) (at_ : At) : (w.setAt i at_).progress i = at_ := by
  simp [World.setAt]

theorem progress_setAt_of_ne (w : World) (at_ : At) (h : j ≠ i) : (w.setAt i at_).progress j = w.progress j := by
  simp [World.setAt, h]

/-- What holds of the call that moved and of where the others are holds of all. -/
theorem forall_setAt {P : ℕ → At → Prop} {at_ : At} (hmoved : P i at_)
    (hothers : ∀ j, j ≠ i → P j (w.progress j)) (j : ℕ) : P j ((w.setAt i at_).progress j) := by
  by_cases hj : j = i
  · subst hj
    rwa [progress_setAt_self]
  · rw [progress_setAt_of_ne _ _ hj]
    exact hothers j hj

/-- A call that is not over goes on. -/
theorem Inv.move (h : Inv w) {at_ : At} (startedDead : ℕ → Bool) (hnot : ∀ result, w.progress i ≠ .done result)
    (hstarted : ∀ j, j ≠ i → startedDead j = w.startedDead j)
    (hthere : ∀ row hash rt, at_ = .token row hash rt → ∃ r ∈ w.refreshTokens, r.tokenHash = hash)
    (hclaimed : ∀ hash, at_.claimed = some hash → (i, hash) ∈ w.claims)
    (hdead : startedDead i → (∃ e, at_ = .done (.error e)) ∨ ∃ row hash, at_ = .client row hash ∧ w.dead hash) :
    Inv ({ w with startedDead := startedDead }.setAt i at_) where
  unique := h.unique
  there := forall_setAt
    (P := fun _ a => ∀ row hash rt, a = .token row hash rt → ∃ r ∈ w.refreshTokens, r.tokenHash = hash) hthere
    fun j _ => h.there j
  claimed := forall_setAt (P := fun j a => ∀ hash, a.claimed = some hash → (j, hash) ∈ w.claims) hclaimed
    fun j _ => h.claimed j
  answered r hr := by
    obtain ⟨hmem, response, hdone⟩ := h.answered r hr
    have hne : r.1 ≠ i := by
      rintro rfl
      exact hnot _ hdone
    exact ⟨hmem, response, (progress_setAt_of_ne _ _ hne).trans hdone⟩
  once := h.once
  dead := forall_setAt
    (P := fun j a => startedDead j → (∃ e, a = .done (.error e)) ∨ ∃ row hash, a = .client row hash ∧ w.dead hash) hdead
    fun j hj hj' => h.dead j ((hstarted j hj).symm.trans hj')

theorem not_done_of_claimed (h : (w.progress i).claimed = some hash) (result : Except OAuthErr TokenResponse) :
    w.progress i ≠ .done result := by
  intro hat
  rw [hat] at h
  cases h

/-- A call that started on a dead token does not come to its UPDATE. -/
theorem Inv.alive_of_claimed (h : Inv w) (hat : (w.progress i).claimed = some hash) : w.startedDead i = false := by
  cases hdead : w.startedDead i with
  | false => rfl
  | true =>
    rcases h.dead i hdead with ⟨e, hfailed⟩ | ⟨row, hash', hclient, -⟩
    · rw [hfailed] at hat
      cases hat
    · rw [hclient] at hat
      cases hat

/-- No token that is dead is read as alive. -/
theorem Inv.not_dead (h : Inv w) {rt : RefreshToken} (hmem : rt ∈ w.refreshTokens) (hrevoked : rt.revokedAt = none)
    (hexpires : ¬ rt.expiresAt < w.now) : ¬ w.dead rt.tokenHash := by
  intro hdead
  obtain ⟨rt', hmem', hrt'⟩ := List.any_eq_true.1 hdead
  simp only [Bool.and_eq_true, Bool.or_eq_true, decide_eq_true_eq] at hrt'
  obtain rfl : rt' = rt := List.inj_on_of_nodup_map h.unique hmem' hmem hrt'.1
  rcases hrt'.2 with hr | hx
  · simp [hrevoked] at hr
  · exact hexpires hx

theorem Inv.claim (h : Inv w) (i : ℕ) (hash : String) : Inv { w with claims := w.claims ++ [(i, hash)] } where
  unique := h.unique
  there := h.there
  claimed j hash' hat := List.mem_append_left _ (h.claimed j hash' hat)
  answered r hr := by
    obtain ⟨hmem, hdone⟩ := h.answered r hr
    exact ⟨List.mem_append_left _ hmem, hdone⟩
  once := h.once
  dead := h.dead

theorem Inv.respond (h : Inv w) (hat : (w.progress i).claimed = some hash) (response : TokenResponse) :
    Inv ({ w with responses := w.responses ++ [(i, hash)] }.setAt i (.done (.ok response))) where
  unique := h.unique
  there := forall_setAt
    (P := fun _ a => ∀ row hash rt, a = .token row hash rt → ∃ r ∈ w.refreshTokens, r.tokenHash = hash) nofun
    fun j _ => h.there j
  claimed := forall_setAt (P := fun j a => ∀ hash, a.claimed = some hash → (j, hash) ∈ w.claims) nofun
    fun j _ => h.claimed j
  answered r hr := by
    rcases List.mem_append.1 hr with hr | hr
    · obtain ⟨hmem, response', hdone⟩ := h.answered r hr
      have hne : r.1 ≠ i := by
        rintro rfl
        exact not_done_of_claimed hat _ hdone
      exact ⟨hmem, response', (progress_setAt_of_ne _ _ hne).trans hdone⟩
    · rw [List.mem_singleton.1 hr]
      exact ⟨h.claimed i hash hat, response, progress_setAt_self _ _ _⟩
  once := by
    have hnew : (i, hash) ∉ w.responses := by
      intro hmem
      obtain ⟨-, response', hdone⟩ := h.answered _ hmem
      exact not_done_of_claimed hat _ hdone
    have hnodup := h.once.concat hnew
    rwa [List.concat_eq_append] at hnodup
  dead := by
    refine forall_setAt
      (P := fun j a => w.startedDead j → (∃ e, a = .done (.error e)) ∨ ∃ row hash, a = .client row hash ∧ w.dead hash)
      (fun hdead => ?_) fun j _ => h.dead j
    rw [h.alive_of_claimed hat] at hdead
    cases hdead

theorem inv_next {w' : World} (h : Inv w) (hnext : Next w i a w') : Inv w' := by
  cases hnext with
  | finished result hat => exact h
  | refused e dead hat =>
    refine h.move _ (by simp [hat]) (fun j hj => by simp [hj]) nofun nofun fun _ => .inl ⟨e, rfl⟩
  | begins row hash hat =>
    refine h.move _ (by simp [hat]) (fun j hj => by simp [hj]) nofun nofun fun hdead => .inr ⟨row, hash, rfl, ?_⟩
    simpa using hdead
  | fails e hat => exact h.move w.startedDead hat (fun _ _ => rfl) nofun nofun fun _ => .inl ⟨e, rfl⟩
  | reads row hash rt hat hmem hhash hrevoked hexpires =>
    subst hhash
    refine h.move w.startedDead (by simp [hat]) (fun _ _ => rfl) ?_ nofun fun hstarted => ?_
    · rintro row' hash' rt' heq
      cases heq
      exact ⟨rt, hmem, rfl⟩
    · rcases h.dead i hstarted with ⟨e, hfailed⟩ | ⟨row', hash', hclient, hdead⟩
      · rw [hat] at hfailed
        cases hfailed
      · rw [hat] at hclient
        cases hclient
        exact absurd hdead (h.not_dead hmem hrevoked hexpires)
  | revokes row hash rt hat hok =>
    have htable := h.table (later_revoke w.refreshTokens hash w.now) (unique_revoke h.unique hash w.now) (Int.le_refl _)
    refine (htable.claim i hash).move w.startedDead (by simp [hat]) (fun _ _ => rfl) nofun ?_ fun hstarted => ?_
    · intro hash' heq
      cases heq
      exact List.mem_append_right _ (List.mem_singleton.2 rfl)
    · rcases h.dead i hstarted with ⟨e, hfailed⟩ | ⟨row', hash', hclient, -⟩
      · rw [hat] at hfailed
        cases hfailed
      · rw [hat] at hclient
        cases hclient
  | goesOn hash at_ hat hto =>
    refine h.move w.startedDead (not_done_of_claimed hat) (fun _ _ => rfl) ?_ ?_ fun hstarted => ?_
    · rintro row hash' rt rfl
      cases hto
    · intro hash' heq
      rw [hto] at heq
      cases heq
      exact h.claimed i hash hat
    · rw [h.alive_of_claimed hat] at hstarted
      cases hstarted
  | responds hash rt response t hat hinsert =>
    have htable := h.table (later_insertToken hinsert) (unique_insertToken h.unique hinsert) (Int.le_refl _)
    exact htable.respond hat response

theorem inv_step (h : Inv w) (op : Op) : Inv (step env reqs w op) := by
  cases op with
  | next i a => exact inv_next h (next_cases env reqs w i a)
  | issue clientUuid userId randomToken =>
    exact h.table (later_getD_insertToken _ _) (unique_getD_insertToken h.unique _) (Int.le_refl _)
  | wait seconds => exact h.table (later_refl _) h.unique (Int.le_add_of_nonneg_right (Int.natCast_nonneg _))

/-! ## Single use -/

def Revoked (w : World) (hash : String) : Prop := ∃ rt ∈ w.refreshTokens, rt.tokenHash = hash ∧ rt.revokedAt.isSome

/-- The hashes of the UPDATEs. -/
def claimedHashes (w : World) : List String := w.claims.map (·.2)

theorem Revoked.later {w' : World} (h : Revoked w hash) (hlater : Later w.refreshTokens w'.refreshTokens) :
    Revoked w' hash := by
  obtain ⟨rt, hmem, hhash, hrevoked⟩ := h
  obtain ⟨rt', hmem', hhash', -, hrevoked'⟩ := hlater rt hmem
  exact ⟨rt', hmem', hhash'.trans hhash, hrevoked' hrevoked⟩

theorem later_next {w' : World} (hnext : Next w i a w') : Later w.refreshTokens w'.refreshTokens := by
  cases hnext with
  | revokes row hash rt hat hok => exact later_revoke _ _ _
  | responds hash rt response t hat hinsert => exact later_insertToken hinsert
  | _ => exact later_refl _

theorem later_step (w : World) (op : Op) : Later w.refreshTokens (step env reqs w op).refreshTokens := by
  cases op with
  | next i a => exact later_next (next_cases env reqs w i a)
  | issue clientUuid userId randomToken => exact later_getD_insertToken _ _
  | wait seconds => exact later_refl _

theorem usesFresh_next {w' : World} (h : Inv w) (hnext : Next w i a w') (hgood : FindsUnrevoked w (.next i a)) :
    UsesFresh claimedHashes Revoked w w' := by
  cases hnext with
  | revokes row hash rt hat hok =>
    have hunrevoked := hgood hash (by rw [hat]; rfl) (by rw [hok]; rfl)
    refine .inr ⟨hash, ?_, List.map_append, ?_⟩
    · rintro ⟨r, hmem, hhash, hrevoked⟩
      rw [hunrevoked r hmem hhash] at hrevoked
      cases hrevoked
    · obtain ⟨r, hmem, hhash⟩ := h.there i row hash rt hat
      refine ⟨_, List.mem_map_of_mem hmem, ?_⟩
      rw [if_pos hhash]
      exact ⟨hhash, rfl⟩
  | _ => exact .inl rfl

theorem usesFresh_step (h : Inv w) (op : Op) (hgood : FindsUnrevoked w op) :
    UsesFresh claimedHashes Revoked w (step env reqs w op) := by
  cases op with
  | next i a => exact usesFresh_next h (next_cases env reqs w i a) hgood
  | issue clientUuid userId randomToken => exact .inl rfl
  | wait seconds => exact .inl rfl

theorem Inv.usedOnce (h : Inv w) (hclaims : (claimedHashes w).Nodup) : UsedOnce w := by
  refine h.once.map_on fun r hr r' hr' heq => ?_
  exact List.inj_on_of_nodup_map hclaims (h.answered r hr).1 (h.answered r' hr').1 heq

theorem Inv.noneFromDead (h : Inv w) : NoneFromDead w := by
  intro r hr
  obtain ⟨-, response, hdone⟩ := h.answered r hr
  cases hdead : w.startedDead r.1 with
  | false => rfl
  | true =>
    rcases h.dead r.1 hdead with ⟨e, hfailed⟩ | ⟨row, hash, hclient, -⟩
    · rw [hdone] at hfailed
      cases hfailed
    · rw [hdone] at hclient
      cases hclient

/-- **Single use**: over any interleaving of any number of calls, of failures, of other grants and of time, a token leads
to one response at most, and one that was dead when the call started to none, in every run in which the UPDATEs find
their tokens not revoked. -/
theorem refresh_used_once (env : Env) (reqs : ℕ → TokenRequest) (now : DateTime) (ops : List Op)
    (h : AllSteps (step env reqs) FindsUnrevoked (.start now) ops) :
    AllStates (step env reqs) (fun w => UsedOnce w ∧ NoneFromDead w) (.start now) ops := by
  have hinv : AllStates (step env reqs) (fun w => Inv w ∧ Accounted claimedHashes Revoked w) (.start now) ops := by
    refine allStates_of_allSteps (K := fun _ => True) ?_ ?_ (fun _ _ => trivial) h
    · exact fun w op hw _ hgood => ⟨inv_step hw.1 op,
        hw.2.next (fun hash hrevoked => hrevoked.later (later_step w op)) (usesFresh_step hw.1 op hgood)⟩
    · exact ⟨inv_start now, by simp [claimedHashes, World.start], by simp [claimedHashes, World.start]⟩
  exact hinv.imp fun w hw => ⟨hw.1.usedOnce hw.2.nodup, hw.1.noneFromDead⟩

/-- Without any condition on the run. -/
theorem none_from_dead (env : Env) (reqs : ℕ → TokenRequest) (now : DateTime) (ops : List Op) :
    AllStates (step env reqs) NoneFromDead (.start now) ops := by
  have hinv : AllStates (step env reqs) Inv (.start now) ops :=
    allStates_of_step (J := Inv) (fun _ op hw => inv_step hw op) (inv_start now) ops
  exact hinv.imp fun _ hw => hw.noneFromDead

/-! ## Two calls with one token -/

/-- SHA-256 of the three tokens below. -/
def hashOf : String → String
  | "first" => "a7937b64b8caa58f03721bb6bacf5c78cb235febe0e70b1b84cd99541461a08e"
  | "second" => "16367aacb67a4a017c8da8ab95682ccb390863780f7114dda0a0e0c55644c7c4"
  | "third" => "b1e99324505bd32da0e1f85dcf5e19a09db0481e8a15f62c41eb320304a8e927"
  | other => other

def testEnv : Env := ⟨hashOf, fun phc plain => phc = "phc" && plain = "secret", 2592000, 900⟩

/-- Every statement succeeds. -/
def succeeds (randomToken : String) : Answers :=
  ⟨.ok (some ⟨1, "phc", ["refresh_token"]⟩), .ok (), .ok (some 8), .ok ["viewer"], .ok "jwt", randomToken⟩

/-- A call with the first token. -/
def refreshFirst (_ : ℕ) : TokenRequest := ⟨"secret", some "first", none⟩

def firstCall (n : ℕ) : List Op := List.replicate n (.next 0 (succeeds "second"))

def secondCall (n : ℕ) : List Op := List.replicate n (.next 1 (succeeds "third"))

theorem refresh_used_once_in_turn :
    let ops := .issue 1 2 "first" :: firstCall 6 ++ secondCall 6
    AllStates (step testEnv refreshFirst) (fun w => UsedOnce w ∧ NoneFromDead w) (.start 0) ops ∧
      (run (step testEnv refreshFirst) (.start 0) ops).responses = [(0, hashOf "first")] := by
  exact ⟨refresh_used_once testEnv refreshFirst 0 _ (by decide), by decide⟩

/-- Both calls read the row before either revokes it, and both are answered with a new pair. -/
theorem refreshed_twice :
    let ops := .issue 1 2 "first" :: firstCall 2 ++ secondCall 2 ++ firstCall 4 ++ secondCall 4
    (run (step testEnv refreshFirst) (.start 0) ops).responses = [(0, hashOf "first"), (1, hashOf "first")] ∧
      ¬ AllStates (step testEnv refreshFirst) (fun w => UsedOnce w ∧ NoneFromDead w) (.start 0) ops := by
  decide

end Qtss.Api.Oauth
