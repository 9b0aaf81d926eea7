import SyncBack.Domain.Entities
import SyncBack.Effects.Concurrent

/-!
# Redis and the collaborators of the authentication

The commands that the authentication gives: to Redis, to the table of users, to the password hasher
and for a new `jti`. A Redis command, and a `MULTI` block, is atomic. The answers about users and
passwords are whatever the database and `bcrypt` say; a `jti` is drawn that nobody knows yet.

A key of Redis can expire at any time. The times to live are arguments of the commands, and what is
left of them is not modelled.

Source: `app/infrastructure/security/refresh_token_store.py`, `login_rate_limiter.py`,
`jwt_handler.py`.
-/

namespace SyncBack

open Effects

/-- A row of `users`, as far as the authentication reads it. -/
structure User where
  id : Uuid
  role : String
  passwordHash : String
  deriving DecidableEq, Repr

/-- A value in Redis: a counter, or the user of a refresh token. -/
inductive RedisValue where
  | counter (n : ℤ)
  | userId (id : Uuid)
  deriving DecidableEq, Repr

/-- The commands. -/
inductive AuthCmd where
  /-- `GET` -/
  | get (key : String)
  /-- `TTL` -/
  | ttl (key : String)
  /-- `MULTI`, `INCR`, `EXPIRE … NX`, `EXEC` -/
  | incrExpire (key : String) (seconds : ℤ)
  /-- `DEL` -/
  | del (key : String)
  /-- `SET … EX` -/
  | set (key : String) (userId : Uuid) (seconds : ℤ)
  /-- `UserRepository.get_by_email` -/
  | getByEmail (email : String)
  /-- `UserRepository.get_by_id` -/
  | getById (id : Uuid)
  /-- `PasswordHasher.hash` -/
  | hash (password : String)
  /-- `PasswordHasher.verify` -/
  | verify (password passwordHash : String)
  /-- `uuid.uuid4()` -/
  | uuid4
  deriving DecidableEq

/-- The answer to a command. -/
def AuthCmd.Resp : AuthCmd → Type
  | .get _ => Option RedisValue
  | .ttl _ => ℤ
  | .incrExpire _ _ | .set _ _ _ => Unit
  | .del _ => ℕ
  | .getByEmail _ | .getById _ => Option User
  | .hash _ | .uuid4 => String
  | .verify _ _ => Bool

/-- The keys of Redis, the texts that are known as a `jti`, and the keys that were ever set: the
last one for history, no command reads it. -/
structure AuthState where
  redis : String → Option RedisValue
  known : List String
  saved : List String

namespace AuthState

/-- Nothing is stored. -/
def empty : AuthState := ⟨fun _ => none, [], []⟩

def put (s : AuthState) (key : String) (value : Option RedisValue) : AuthState :=
  { s with redis := Function.update s.redis key value }

/-- A text becomes known as a `jti`. -/
def learn (s : AuthState) (jti : String) : AuthState := { s with known := jti :: s.known }

/-- What Redis has after a value was put or removed. -/
@[simp] theorem put_redis (s : AuthState) (key : String) (value : Option RedisValue) :
    (s.put key value).redis = Function.update s.redis key value := rfl

end AuthState

/-- What the commands do. `INCR` refuses a value that is not a number. -/
def AuthCmd.respond : (c : AuthCmd) → c.Resp → AuthState → Option AuthState
  | .get key, (value : Option RedisValue), s => if value = s.redis key then some s else none
  | .ttl _, _, s => some s
  | .incrExpire key _, _, s =>
      match s.redis key with
      | none => some (s.put key (some (.counter 1)))
      | some (.counter n) => some (s.put key (some (.counter (n + 1))))
      | some (.userId _) => none
  | .del key, (deleted : ℕ), s =>
      if deleted = (if (s.redis key).isSome = true then 1 else 0) then some (s.put key none)
      else none
  | .set key userId _, _, s =>
      some { s.put key (some (.userId userId)) with saved := key :: s.saved }
  | .getByEmail _, _, s | .getById _, _, s | .hash _, _, s | .verify _ _, _, s => some s
  | .uuid4, (jti : String), s => if jti ∈ s.known then none else some (s.learn jti)

namespace AuthCmd

variable {s s' : AuthState} {key : String}

/-- `GET` answers the value and changes nothing. -/
theorem respond_get {value : Option RedisValue} (h : respond (.get key) value s = some s') :
    value = s.redis key ∧ s' = s := by
  obtain ⟨hvalue, hs⟩ := Option.ite_none_right_eq_some.mp h
  exact ⟨hvalue, (Option.some.inj hs).symm⟩

/-- `INCR` counts from nothing or from a counter. -/
theorem respond_incrExpire (seconds : ℤ) (h : respond (.incrExpire key seconds) () s = some s') :
    (s.redis key = none ∧ s' = s.put key (some (.counter 1))) ∨
      ∃ n, s.redis key = some (.counter n) ∧ s' = s.put key (some (.counter (n + 1))) := by
  unfold respond at h
  dsimp only at h
  split at h
  · rename_i hkey
    cases h
    exact .inl ⟨hkey, rfl⟩
  · rename_i n hkey
    cases h
    exact .inr ⟨n, hkey, rfl⟩
  · cases h

/-- `DEL` answers whether there was a value. -/
theorem respond_del {n : ℕ} (h : respond (.del key) n s = some s') :
    (n = if (s.redis key).isSome = true then 1 else 0) ∧ s' = s.put key none := by
  obtain ⟨hn, hs⟩ := Option.ite_none_right_eq_some.mp h
  exact ⟨hn, (Option.some.inj hs).symm⟩

/-- A drawn identifier is new. -/
theorem respond_uuid4 {jti : String} (h : respond .uuid4 jti s = some s') :
    jti ∉ s.known ∧ s' = s.learn jti := by
  obtain ⟨hfresh, hs⟩ := Option.ite_none_left_eq_some.mp h
  exact ⟨hfresh, (Option.some.inj hs).symm⟩

end AuthCmd

/-- A key expires. -/
def AuthState.expire (key : String) (s : AuthState) : Option AuthState := some (s.put key none)

/-- Source: `RefreshTokenStore._key`. -/
def tokenKey (jti : String) : String := "syncscribe:rt:" ++ jti

/-- Source: `LoginRateLimiter._key`. -/
def attemptsKey (lower : Text → Text) (email : String) (clientIp : Option String) : String :=
  "login_attempts:" ++ String.ofList (lower email.toList) ++ ":" ++
    (if clientIp.getD "" = "" then "unknown" else clientIp.getD "")

/-- A key tells its token. -/
theorem tokenKey_injective {jti jti' : String} (h : tokenKey jti = tokenKey jti') : jti = jti' :=
  (String.append_right_inj _).mp h

/-- The counters and the tokens do not share keys. -/
theorem attemptsKey_ne_tokenKey {lower : Text → Text} {email : String} {clientIp : Option String}
    {jti : String} : attemptsKey lower email clientIp ≠ tokenKey jti := by
  have hhead : ∀ {s : String} {c : Char} (t : String), s.toList.head? = some c →
      (s ++ t).toList.head? = some c := by
    intro s c t hs
    rw [String.toList_append, List.head?_append, hs]
    rfl
  have hattempts : (attemptsKey lower email clientIp).toList.head? = some 'l' :=
    hhead _ (hhead _ (hhead _ (by decide)))
  have htoken : (tokenKey jti).toList.head? = some 's' := hhead _ (by decide)
  intro h
  rw [h, htoken] at hattempts
  exact absurd hattempts (by decide)

end SyncBack
