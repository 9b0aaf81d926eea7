import SyncBack.Infrastructure.Redis

/-!
# The authentication service

Login with a limit on failed attempts, refresh tokens that are exchanged for new ones, and logout.
A presented refresh token is the outcome of decoding it: `decode_refresh_token` checks the signature
and the expiry, so that a `jti` comes from a token that was issued, or is not known at all.

Source: `app/domain/services/auth_service.py`, `app/domain/policies.py`,
`app/infrastructure/security/*.py`.
-/

namespace SyncBack

open Effects

/-- Source: `app/core/config.py`. -/
structure AuthSettings where
  loginMaxAttempts : ℤ := 5
  loginLockoutSeconds : ℤ := 300
  jwtAccessTokenExpireMinutes : ℤ := 60
  jwtRefreshTokenExpireDays : ℤ := 30

/-- The exceptions of the service. -/
inductive AuthError where
  | accountTemporarilyLocked (retryAfter : ℤ)
  | invalidCredentials (message : String)
  | invalidToken
  | valueError
  deriving DecidableEq

/-- The claims of an access token. -/
structure AccessToken where
  sub : Uuid
  role : String
  deriving DecidableEq

/-- The claims of a refresh token. -/
structure RefreshToken where
  sub : Uuid
  role : String
  jti : String
  deriving DecidableEq

/-- What a login and an exchange return. -/
structure TokenPair where
  accessToken : AccessToken
  refreshToken : RefreshToken
  expiresIn : ℤ
  refreshExpiresIn : ℤ
  deriving DecidableEq

/-- What `decode_refresh_token` reads; a token need not have a `jti`. -/
structure RefreshPayload where
  sub : Uuid
  jti : Option String
  deriving DecidableEq

abbrev AuthSession : Type → Type := Prog AuthCmd.Resp AuthError

/-- Give one command. -/
def command (c : AuthCmd) : AuthSession c.Resp := Prog.call c

/-- Source: `PasswordPolicy`. -/
structure PasswordPolicy where
  minLength : ℕ := 8
  maxLength : ℕ := 128
  maxBytes : ℕ := 72

/-- Source: `PasswordPolicy.is_satisfied_by`. -/
def PasswordPolicy.isSatisfiedBy (policy : PasswordPolicy) (password : String) : Bool :=
  if password.length < policy.minLength then false
  else if password.length > policy.maxLength then false
  else if password.utf8ByteSize > policy.maxBytes then false
  else true

section

variable (settings : AuthSettings) (lower : Text → Text)

namespace LoginRateLimiter

/-- Source: `LoginRateLimiter.is_locked`. -/
def isLocked (email : String) (clientIp : Option String) : AuthSession (Bool × ℤ) := do
  let key := attemptsKey lower email clientIp
  let attempts : Option RedisValue ← command (.get key)
  match attempts with
  | none => pure (false, 0)
  | some (.counter n) =>
      if n < settings.loginMaxAttempts then pure (false, 0)
      else do
        let ttl : ℤ ← command (.ttl key)
        pure (true, max ttl 0)
  | some (.userId _) => throw .valueError

/-- Source: `LoginRateLimiter.register_failure`. -/
def registerFailure (email : String) (clientIp : Option String) : AuthSession Unit :=
  command (.incrExpire (attemptsKey lower email clientIp) settings.loginLockoutSeconds)

/-- Source: `LoginRateLimiter.reset`. -/
def reset (email : String) (clientIp : Option String) : AuthSession Unit := do
  let _ ← command (.del (attemptsKey lower email clientIp))

end LoginRateLimiter

namespace RefreshTokenStore

/-- Source: `RefreshTokenStore.save`. -/
def save (jti : String) (userId : Uuid) (ttlSeconds : ℤ) : AuthSession Unit :=
  command (.set (tokenKey jti) userId ttlSeconds)

/-- Source: `RefreshTokenStore.revoke_if_valid`. -/
def revokeIfValid (jti : String) : AuthSession Bool := do
  let deleted : ℕ ← command (.del (tokenKey jti))
  pure (decide (0 < deleted))

/-- Source: `RefreshTokenStore.revoke`. -/
def revoke (jti : String) : AuthSession Unit := do
  let _ ← command (.del (tokenKey jti))

end RefreshTokenStore

namespace AuthService

/-- Both tokens for a user, the second of which is saved. -/
def issueTokens (user : User) : AuthSession TokenPair := do
  let jti : String ← command .uuid4
  let refreshExpiresIn := settings.jwtRefreshTokenExpireDays * 24 * 60 * 60
  RefreshTokenStore.save jti user.id refreshExpiresIn
  pure {
    accessToken := ⟨user.id, user.role⟩
    refreshToken := ⟨user.id, user.role, jti⟩
    expiresIn := settings.jwtAccessTokenExpireMinutes * 60
    refreshExpiresIn }

/-- A login that fails is counted. -/
def refuse {α : Type} (email : String) (clientIp : Option String) : AuthSession α := do
  LoginRateLimiter.registerFailure settings lower email clientIp
  throw (.invalidCredentials "Неверный email или пароль")

/-- `authenticate` after the check of the lock. -/
def checkPassword (policy : PasswordPolicy) (email password : String) (clientIp : Option String) :
    AuthSession TokenPair :=
  if policy.isSatisfiedBy password = true then do
    let user : Option User ← command (.getByEmail email)
    match user with
    | none => do
        let _ ← command (.hash password)
        refuse settings lower email clientIp
    | some user => do
        let valid : Bool ← command (.verify password user.passwordHash)
        if valid = true then do
          LoginRateLimiter.reset lower email clientIp
          issueTokens settings user
        else refuse settings lower email clientIp
  else refuse settings lower email clientIp

/-- Source: `AuthService.authenticate`. -/
def authenticate (policy : PasswordPolicy) (email password : String) (clientIp : Option String) :
    AuthSession TokenPair := do
  let (isLocked, retryAfter) ← LoginRateLimiter.isLocked settings lower email clientIp
  if isLocked = true then throw (.accountTemporarilyLocked retryAfter)
  else checkPassword settings lower policy email password clientIp

/-- The `jti` of a payload, if it has one. -/
def presentedJti (payload : RefreshPayload) : Option String := payload.jti.filter (· ≠ "")

/-- Source: `AuthService.refresh_access_token`. -/
def refreshAccessToken (token : Except AuthError RefreshPayload) : AuthSession TokenPair :=
  match token with
  | .error e => throw e
  | .ok payload =>
      match presentedJti payload with
      | none => throw (.invalidCredentials "Refresh-токен недействителен или уже использован")
      | some jti => do
          let revoked ← RefreshTokenStore.revokeIfValid jti
          if revoked = true then do
            let user : Option User ← command (.getById payload.sub)
            match user with
            | none => throw (.invalidCredentials "Пользователь не найден")
            | some user => issueTokens settings user
          else throw (.invalidCredentials "Refresh-токен недействителен или уже использован")

/-- Source: `AuthService.logout`. -/
def logout (token : Except AuthError RefreshPayload) : AuthSession Unit :=
  match token with
  | .error _ => pure ()
  | .ok payload =>
      match presentedJti payload with
      | none => pure ()
      | some jti => RefreshTokenStore.revoke jti

end AuthService

/-! ## Calls -/

/-- The calls of the authentication. -/
inductive AuthCall where
  | authenticate (email password : String) (clientIp : Option String)
  | refreshAccessToken (token : Except AuthError RefreshPayload)
  | logout (token : Except AuthError RefreshPayload)
  deriving DecidableEq

/-- The `jti` that a call presents. -/
def AuthCall.jti : AuthCall → Option String
  | .authenticate _ _ _ => none
  | .refreshAccessToken (.ok payload) | .logout (.ok payload) => AuthService.presentedJti payload
  | .refreshAccessToken (.error _) | .logout (.error _) => none

/-- The program of a call; only the first two return tokens. -/
def AuthCall.program (policy : PasswordPolicy) : AuthCall → AuthSession (Option TokenPair)
  | .authenticate email password clientIp => do
      let pair ← AuthService.authenticate settings lower policy email password clientIp
      pure (some pair)
  | .refreshAccessToken token => do
      let pair ← AuthService.refreshAccessToken settings token
      pure (some pair)
  | .logout token => do
      AuthService.logout token
      pure none

/-- A `jti` is presented that was saved before, or that nobody knew. -/
def AuthCall.begin (c : AuthCall) (s : AuthState) : Option AuthState :=
  match c.jti with
  | none => some s
  | some jti => if tokenKey jti ∈ s.saved ∨ jti ∉ s.known then some (s.learn jti) else none

/-- The beginning of a call writes nothing to Redis. -/
theorem AuthCall.begin_spec {call : AuthCall} {s s' : AuthState} (h : call.begin s = some s') :
    s'.redis = s.redis ∧ s'.saved = s.saved ∧ (∀ jti ∈ s.known, jti ∈ s'.known) ∧
      ∀ jti, call.jti = some jti → jti ∈ s'.known ∧ (tokenKey jti ∈ s.saved ∨ jti ∉ s.known) := by
  unfold AuthCall.begin at h
  split at h
  · rename_i hnone
    cases h
    exact ⟨rfl, rfl, fun _ hmem => hmem, fun jti hjti => nomatch hnone.symm.trans hjti⟩
  · rename_i jti hjti
    split at h
    · rename_i hallowed
      cases h
      refine ⟨rfl, rfl, fun _ => List.mem_cons_of_mem _, fun jti' hjti' => ?_⟩
      obtain rfl := Option.some.inj (hjti.symm.trans hjti')
      exact ⟨List.mem_cons_self, hallowed⟩
    · cases h

/-- The calls of the authentication over Redis, where keys expire. -/
abbrev authSystem (policy : PasswordPolicy) : System where
  Call := AuthCall
  Cmd := AuthCmd
  Resp := AuthCmd.Resp
  Env := String
  Err := AuthError
  Res := Option TokenPair
  State := AuthState
  program := AuthCall.program settings lower policy
  begin := AuthCall.begin
  respond := AuthCmd.respond
  env := AuthState.expire

end

end SyncBack
