import Mathlib.Logic.Function.Basic
import Qtss.Domain
/-
# Refresh tokens (`qtss-api/src/oauth/token.rs`)

| here | there |
| --- | --- |
| `OAuthErr`, `invalidRequest`, … | oauth/error.rs: the status, the code and the description of the body |
| `Env`        | SHA-256, the argon2 verification and the two lifetimes |
| `RefreshToken` | a row of `refresh_tokens`, with `token_hash` unique |
| `readClient` | `fetch_oauth_client` and the checks of token_refresh (token.rs:200-212) |
| `readToken`  | the SELECT of the token and its two checks (:214-232) |
| `revoke`     | the UPDATE (:234) |
| `readOrg`, `readRoles` | :240, :247 |
| `finishTokenIssue` | :290 |
| `Op.issue`   | the INSERT of a password or a client credentials grant |

A call makes one statement in a step, with what it does in process up to the next one. The clock of the process and of
the database are one, and do not go back. `claims`, `responses` and `startedDead` are records of what the calls have done,
no variables of the source.
-/

namespace Qtss.Api.Oauth

structure OAuthErr where
  status : ℕ
  error : String
  errorDescription : String
deriving DecidableEq

def invalidRequest (desc : String) : OAuthErr := ⟨400, "invalid_request", desc⟩

def invalidClient (desc : String) : OAuthErr := ⟨401, "invalid_client", desc⟩

def invalidGrant (desc : String) : OAuthErr := ⟨400, "invalid_grant", desc⟩

def serverError (desc : String) : OAuthErr := ⟨500, "server_error", desc⟩

structure TokenRequest where
  clientSecret : String
  refreshToken : Option String
  scope : Option String
deriving DecidableEq

structure TokenResponse where
  accessToken : String
  tokenType : String
  expiresIn : ℤ
  refreshToken : Option String
  scope : Option String
deriving DecidableEq

structure OauthClientRow where
  id : Uuid
  clientSecretHash : String
  allowedGrantTypes : List String
deriving DecidableEq

structure RefreshToken where
  clientUuid : Uuid
  userId : Uuid
  tokenHash : String
  expiresAt : DateTime
  revokedAt : Option DateTime
deriving DecidableEq

abbrev RefreshTokens := List RefreshToken

structure Env where
  hashToken : String → String
  /-- The stored hash, and the secret that comes with the request. -/
  verifyClientSecret : String → String → Bool
  refreshTtlSecs : ℤ
  accessTtlSecs : ℤ

/-- What one step of a call is told. An error is the text of a failed statement. -/
structure Answers where
  client : Except String (Option OauthClientRow)
  refreshTokens : Except String Unit
  org : Except String (Option Uuid)
  roles : Except String (List String)
  issueAccessToken : Except String String
  randomToken : String

/-! ## The statements -/

def readClient (env : Env) (req : TokenRequest) (a : Answers) : Except OAuthErr (OauthClientRow × String) :=
  match a.client with
  | .error e => .error (invalidClient ("db: " ++ e))
  | .ok none => .error (invalidClient "bilinmeyen client_id")
  | .ok (some row) =>
    if !row.allowedGrantTypes.contains "refresh_token" then
      .error (invalidGrant "refresh_token bu istemci için kapalı")
    else if !env.verifyClientSecret row.clientSecretHash req.clientSecret then
      .error (invalidClient "istemci kimlik doğrulaması başarısız")
    else
      match req.refreshToken with
      | none => .error (invalidRequest "refresh_token gerekli")
      | some raw => .ok (row, env.hashToken raw)

def readToken (t : RefreshTokens) (now : DateTime) (row : OauthClientRow) (hash : String) (a : Answers) :
    Except OAuthErr RefreshToken :=
  match a.refreshTokens with
  | .error e => .error (invalidGrant ("db: " ++ e))
  | .ok () =>
    match t.find? fun rt => rt.tokenHash = hash && rt.clientUuid = row.id with
    | none => .error (invalidGrant "yenileme belirteci geçersiz")
    | some rt =>
      if rt.revokedAt.isSome then .error (invalidGrant "belirteç iptal edilmiş")
      else if rt.expiresAt < now then .error (invalidGrant "belirteç süresi dolmuş")
      else .ok rt

/-- `UPDATE refresh_tokens SET revoked_at = now() WHERE token_hash = $1`. -/
def revoke (t : RefreshTokens) (hash : String) (now : DateTime) : RefreshTokens :=
  t.map fun rt => if rt.tokenHash = hash then { rt with revokedAt := some now } else rt

def updateRevoked (a : Answers) : Except OAuthErr Unit := a.refreshTokens.mapError fun e => invalidGrant ("db: " ++ e)

def readOrg (a : Answers) : Except OAuthErr Uuid :=
  match a.org with
  | .error e => .error (invalidGrant ("db: " ++ e))
  | .ok none => .error (invalidGrant "kullanıcı yok")
  | .ok (some org) => .ok org

def readRoles (a : Answers) : Except OAuthErr (List String) := a.roles.mapError invalidGrant

/-- `INSERT INTO refresh_tokens`; `none` is the unique violation. -/
def insertToken (t : RefreshTokens) (rt : RefreshToken) : Option RefreshTokens :=
  if t.any (·.tokenHash = rt.tokenHash) then none else some (t ++ [rt])

def finishTokenIssue (env : Env) (t : RefreshTokens) (now : DateTime) (clientUuid userId : Uuid) (scope : Option String)
    (a : Answers) : Except OAuthErr (TokenResponse × RefreshTokens) :=
  match a.issueAccessToken with
  | .error e => .error (serverError e)
  | .ok access =>
    match a.refreshTokens with
    | .error e => .error (invalidGrant ("refresh kayıt: " ++ e))
    | .ok () =>
      match insertToken t ⟨clientUuid, userId, env.hashToken a.randomToken, now + env.refreshTtlSecs, none⟩ with
      | none => .error (invalidGrant "refresh kayıt: duplicate key value violates unique constraint")
      | some t => .ok (⟨access, "Bearer", env.accessTtlSecs, some a.randomToken, scope⟩, t)

/-! ## Calls -/

/-- How far a call of `token_refresh` is. -/
inductive At where
  | start
  | client (row : OauthClientRow) (hash : String)
  | token (row : OauthClientRow) (hash : String) (rt : RefreshToken)
  | revoked (row : OauthClientRow) (hash : String) (rt : RefreshToken)
  | org (row : OauthClientRow) (hash : String) (rt : RefreshToken) (org : Uuid)
  | roles (row : OauthClientRow) (hash : String) (rt : RefreshToken) (org : Uuid) (roles : List String)
  | done (result : Except OAuthErr TokenResponse)

structure World where
  now : DateTime
  refreshTokens : RefreshTokens
  progress : ℕ → At
  /-- The UPDATEs: the call and the hash. -/
  claims : List (ℕ × String)
  /-- The successful responses: the call and the hash. -/
  responses : List (ℕ × String)
  /-- The token of the call was revoked or expired when the call started. -/
  startedDead : ℕ → Bool

def World.start (now : DateTime) : World := ⟨now, [], fun _ => .start, [], [], fun _ => false⟩

/-- The token is there, and revoked or expired. -/
def World.dead (w : World) (hash : String) : Bool :=
  w.refreshTokens.any fun rt => rt.tokenHash = hash && (rt.revokedAt.isSome || rt.expiresAt < w.now)

def World.setAt (w : World) (i : ℕ) (at_ : At) : World := { w with progress := Function.update w.progress i at_ }

inductive Op where
  /-- The next statement of a call. -/
  | next (call : ℕ) (a : Answers)
  | issue (clientUuid userId : Uuid) (randomToken : String)
  | wait (seconds : ℕ)

def next (env : Env) (reqs : ℕ → TokenRequest) (w : World) (i : ℕ) (a : Answers) : World :=
  match w.progress i with
  | .start =>
    let dead := (reqs i).refreshToken.any fun raw => w.dead (env.hashToken raw)
    let w := { w with startedDead := Function.update w.startedDead i dead }
    match readClient env (reqs i) a with
    | .error e => w.setAt i (.done (.error e))
    | .ok (row, hash) => w.setAt i (.client row hash)
  | .client row hash =>
    match readToken w.refreshTokens w.now row hash a with
    | .error e => w.setAt i (.done (.error e))
    | .ok rt => w.setAt i (.token row hash rt)
  | .token row hash rt =>
    match updateRevoked a with
    | .error e => w.setAt i (.done (.error e))
    | .ok () =>
      { w with
        refreshTokens := revoke w.refreshTokens hash w.now
        claims := w.claims ++ [(i, hash)] }.setAt i (.revoked row hash rt)
  | .revoked row hash rt =>
    match readOrg a with
    | .error e => w.setAt i (.done (.error e))
    | .ok org => w.setAt i (.org row hash rt org)
  | .org row hash rt org =>
    match readRoles a with
    | .error e => w.setAt i (.done (.error e))
    | .ok roles => w.setAt i (.roles row hash rt org roles)
  | .roles row hash rt _ _ =>
    match finishTokenIssue env w.refreshTokens w.now row.id rt.userId (reqs i).scope a with
    | .error e => w.setAt i (.done (.error e))
    | .ok (response, t) =>
      { w with refreshTokens := t, responses := w.responses ++ [(i, hash)] }.setAt i (.done (.ok response))
  | .done _ => w

def step (env : Env) (reqs : ℕ → TokenRequest) (w : World) : Op → World
  | .next i a => next env reqs w i a
  | .issue clientUuid userId randomToken =>
    let rt : RefreshToken := ⟨clientUuid, userId, env.hashToken randomToken, w.now + env.refreshTtlSecs, none⟩
    { w with refreshTokens := (insertToken w.refreshTokens rt).getD w.refreshTokens }
  | .wait seconds => { w with now := w.now + seconds }

end Qtss.Api.Oauth
