import Mathlib.Data.Rat.Init
import Mathlib.Algebra.Order.Ring.Rat
import SyncBack.Retries.Attempts

/-!
# Requests to the model

`_post_with_retries` repeats a POST after timeouts, transport errors and the statuses 429 and 5xx.
`_chat` sends its POSTs through it and once more, with a new token, after a 401. `GigaChatOAuth`
fetches that token with a loop of its own, of the same form.

The server is an arbitrary sequence of answers. Floats keep their special values and their
comparisons; what `float` reads from a string and the arithmetic on points in time are parameters.

Source: `app/infrastructure/llm/http_retry_mixin.py`,
`app/infrastructure/llm/openai_compatible_client.py`, `app/infrastructure/llm/auth.py`.
-/

namespace SyncBack

/-- A float. -/
inductive PyFloat where
  | finite (value : ℚ)
  | infinity
  | negInfinity
  | nan
  deriving DecidableEq

namespace PyFloat

/-- `a < b`, which is false as soon as one of them is not a number. -/
def lt : PyFloat → PyFloat → Bool
  | .finite a, .finite b => a < b
  | .finite _, .infinity => true
  | .negInfinity, .finite _ => true
  | .negInfinity, .infinity => true
  | _, _ => false

/-- `max(a, b)`: the second value only if it is greater than the first. -/
def pyMax (a b : PyFloat) : PyFloat := if lt a b then b else a

/-- `min(a, b)`: the second value only if it is less than the first. -/
def pyMin (a b : PyFloat) : PyFloat := if lt b a then b else a

end PyFloat

/-- What the model takes from the runtime. -/
structure PyRuntime where
  /-- `float(s)`; `none` is a `ValueError`. -/
  float : String → Option PyFloat
  add : PyFloat → PyFloat → PyFloat
  sub : PyFloat → PyFloat → PyFloat
  div : PyFloat → PyFloat → PyFloat
  /-- `asyncio.sleep` raises a `ValueError` for a pause that is not a number (since Python 3.13). -/
  sleepRefusesNan : Bool

/-- The exceptions of a call. -/
inductive LlmError where
  | llmTimeout (message : String)
  | llmInvalidResponse (message : String) (statusCode : Option ℕ)
  | overflow
  | invalidDelay
  | assertion (message : String)
  deriving DecidableEq

/-- What the code reads of an `httpx.Response`; the body is read in different ways. -/
structure LlmResponse (β : Type) where
  statusCode : ℕ
  /-- The header `retry-after`. -/
  retryAfter : Option String
  body : β
  deriving DecidableEq

/-- What a POST comes to. -/
inductive PostAnswer (β : Type) where
  | response (response : LlmResponse β)
  | timeoutException
  | transportError
  deriving DecidableEq

/-- Source: `httpx.Response.is_success`. -/
def LlmResponse.isSuccess {β : Type} (r : LlmResponse β) : Bool :=
  200 ≤ r.statusCode ∧ r.statusCode ≤ 299

/-- The header that a pause depends on. -/
def PostAnswer.retryAfter {β : Type} : PostAnswer β → Option String
  | .response r => r.retryAfter
  | _ => none

namespace LlmHttp

/-- Source: `BACKOFF_MAX_SECONDS`. -/
def backoffMaxSeconds : PyFloat := .finite 30

/-- `BACKOFF_BASE_SECONDS * (1 << attempt)`: no float holds a power from `2 ^ 1024` on. -/
def backoffBase (attempt : ℕ) : Except LlmError PyFloat :=
  if attempt < 1024 then .ok (.finite (2 ^ attempt)) else .error .overflow

/-- Source: `backoff_delay`. -/
def backoffDelay (py : PyRuntime) (attempt : ℕ) (retryAfter : Option String) :
    Except LlmError PyFloat :=
  match retryAfter.bind py.float with
  | some seconds => .ok (PyFloat.pyMin (PyFloat.pyMax seconds (.finite 0)) backoffMaxSeconds)
  | none => (backoffBase attempt).map fun seconds => PyFloat.pyMin seconds backoffMaxSeconds

/-- Source: `_is_retryable_status`. -/
def isRetryableStatus (statusCode : ℕ) : Bool := statusCode = 429 ∨ 500 ≤ statusCode

/-- `_sleep`, with the exception that it raises. -/
def sleep (py : PyRuntime) : PyFloat → Option LlmError
  | .nan => if py.sleepRefusesNan then some .invalidDelay else none
  | _ => none

/-- The texts in which the two loops differ. -/
structure RetryTexts where
  timeout : String
  transport : String
  /-- An answer with a retryable status. -/
  failed : ℕ → String
  /-- An answer with any other status. -/
  refused : ℕ → String

/-- The failure that an answer leaves behind. -/
def failure {β : Type} (texts : RetryTexts) : PostAnswer β → String
  | .timeoutException => texts.timeout
  | .transportError => texts.transport
  | .response r => texts.failed r.statusCode

/-- The result that an answer decides; `accept` is what becomes of a success. -/
def verdict {α β : Type} (texts : RetryTexts) (accept : LlmResponse β → Except LlmError α) :
    PostAnswer β → Option (Except LlmError α)
  | .response r =>
      if r.isSuccess then some (accept r)
      else if isRetryableStatus r.statusCode then none
      else some (.error (.llmInvalidResponse (texts.refused r.statusCode) (some r.statusCode)))
  | _ => none

/-- The loop of `_post_with_retries` and of `_fetch_token`. -/
def retryPolicy {α β : Type} (py : PyRuntime) (texts : RetryTexts)
    (accept : LlmResponse β → Except LlmError α) :
    Retries.Policy (PostAnswer β) (Except LlmError α) PyFloat where
  verdict := verdict texts accept
  exhausted attempt answer :=
    .error (.llmTimeout (failure texts answer ++ s!" (попыток: {attempt + 1})"))
  delay attempt answer := (backoffDelay py attempt answer.retryAfter).mapError .error
  refusal delay := (sleep py delay).map .error
  unreachable := .error (.assertion "unreachable")

/-- The texts of `_post_with_retries`. -/
def postTexts (timeoutSeconds : ℤ) : RetryTexts where
  timeout := s!"LLM не ответила за {timeoutSeconds} сек."
  transport := "Не удалось подключиться к LLM-эндпоинту"
  failed statusCode := s!"LLM вернула HTTP {statusCode}"
  refused statusCode := s!"LLM вернула HTTP {statusCode}"

/-- Source: `_post_with_retries`, with the answers to its POSTs in order. -/
def postWithRetries {β : Type} (py : PyRuntime) (timeoutSeconds : ℤ) (maxRetries : ℕ)
    (server : ℕ → PostAnswer β) :
    List (Retries.Event (PostAnswer β) PyFloat) × Except LlmError (LlmResponse β) :=
  (retryPolicy py (postTexts timeoutSeconds) .ok).run maxRetries server

end LlmHttp

/-! ## Authorisation -/

/-- A value of the JSON body of an answer, as far as the code tells them apart. A boolean is the
number that it is in Python; an integer that no float holds has a constructor of its own. -/
inductive JsonValue where
  | object (entries : List (String × JsonValue))
  | string (value : String)
  | number (value : PyFloat)
  | hugeInteger
  | other

/-- `payload.get(key) if isinstance(payload, dict) else None`. -/
def JsonValue.get? (key : String) : JsonValue → Option JsonValue
  | .object entries => entries.lookup key
  | _ => none

/-- The body of an answer of the OAuth server; `none` if it is no JSON. -/
abbrev OAuthAnswer := PostAnswer (Option JsonValue)

/-- What `_access_token` finds outside: the clock, what the token cache gives (`none` also without
a cache), and the answers of the OAuth server. -/
structure TokenVisit where
  now : PyFloat
  cached : Option (String × PyFloat)
  oauth : ℕ → OAuthAnswer

/-- The fields of a `GigaChatOAuth` that change or are asked for. -/
structure GigaChatOAuth where
  maxRetries : ℕ
  hasCache : Bool
  token : Option String := none
  expiresAt : PyFloat := .finite 0

/-- What a call of `headers` does: POSTs to the OAuth server, and a write to the token cache. -/
inductive TokenEvent where
  | oauth (event : Retries.Event OAuthAnswer PyFloat)
  | stored (token : String) (expiresAt : PyFloat)

namespace GigaChatOAuth

/-- Source: `TOKEN_REFRESH_MARGIN_SECONDS`. -/
def tokenRefreshMarginSeconds : PyFloat := .finite 60

/-- Source: `DEFAULT_TOKEN_TTL_SECONDS`. -/
def defaultTokenTtlSeconds : PyFloat := .finite (25 * 60)

/-- Source: `_parse_token`. -/
def parseToken (py : PyRuntime) (now : PyFloat) (r : LlmResponse (Option JsonValue)) :
    Except LlmError (String × PyFloat) :=
  match r.body with
  | none => .error (.llmInvalidResponse "OAuth-сервер LLM вернул не JSON" none)
  | some payload =>
      match payload.get? "access_token" with
      | some (.string token) =>
          if token = "" then
            .error (.llmInvalidResponse "OAuth-сервер LLM не вернул access_token" none)
          else
            match payload.get? "expires_at" with
            | some (.number ms) => .ok (token, py.div ms (.finite 1000))
            | some .hugeInteger => .error .overflow
            | _ => .ok (token, py.add now defaultTokenTtlSeconds)
      | _ => .error (.llmInvalidResponse "OAuth-сервер LLM не вернул access_token" none)

/-- The texts of `_fetch_token`. -/
def oauthTexts : LlmHttp.RetryTexts where
  timeout := "OAuth-сервер LLM не ответил вовремя"
  transport := "Не удалось подключиться к OAuth-серверу LLM"
  failed statusCode := s!"OAuth-сервер LLM вернул HTTP {statusCode}"
  refused statusCode := s!"OAuth-сервер LLM отклонил ключ авторизации: HTTP {statusCode}"

/-- Source: `_fetch_token`. -/
def fetchToken (py : PyRuntime) (auth : GigaChatOAuth) (visit : TokenVisit) :
    List (Retries.Event OAuthAnswer PyFloat) × Except LlmError (String × PyFloat) :=
  (LlmHttp.retryPolicy py oauthTexts (parseToken py visit.now)).run auth.maxRetries visit.oauth

/-- Source: `_fresh_token`. -/
def freshToken (py : PyRuntime) (auth : GigaChatOAuth) (now : PyFloat) : Option String :=
  auth.token.filter fun token =>
    token ≠ "" && now.lt (py.sub auth.expiresAt tokenRefreshMarginSeconds)

/-- `_access_token` from `_fetch_token` on. -/
def renew (py : PyRuntime) (auth : GigaChatOAuth) (visit : TokenVisit) :
    List TokenEvent × Except LlmError String × GigaChatOAuth :=
  match auth.fetchToken py visit with
  | (events, .error e) => (events.map .oauth, .error e, auth)
  | (events, .ok (token, expiresAt)) =>
      (events.map .oauth ++ if auth.hasCache then [.stored token expiresAt] else [],
        .ok token, { auth with token := some token, expiresAt })

/-- Source: `_access_token`. -/
def accessToken (py : PyRuntime) (auth : GigaChatOAuth) (visit : TokenVisit)
    (forceRefresh : Bool) : List TokenEvent × Except LlmError String × GigaChatOAuth :=
  if forceRefresh then auth.renew py visit
  else
    match auth.freshToken py visit.now with
    | some token => ([], .ok token, auth)
    | none =>
        match if auth.hasCache then visit.cached else none with
        | some (token, expiresAt) =>
            let auth := { auth with token := some token, expiresAt }
            match auth.freshToken py visit.now with
            | some token => ([], .ok token, auth)
            | none => auth.renew py visit
        | none => auth.renew py visit

end GigaChatOAuth

/-- The strategies that `build_auth` chooses from. -/
inductive AuthStrategy where
  | noAuth
  | bearerAuth (apiKey : String)
  | gigaChatOAuth (auth : GigaChatOAuth)

namespace AuthStrategy

/-- The attribute `refreshable`. -/
def refreshable : AuthStrategy → Bool
  | .gigaChatOAuth _ => true
  | _ => false

/-- The header that carries a token. -/
def bearer (token : String) : List (String × String) := [("Authorization", s!"Bearer {token}")]

/-- The `headers` of the strategies. -/
def headers (py : PyRuntime) (visit : TokenVisit) (forceRefresh : Bool) :
    AuthStrategy → List TokenEvent × Except LlmError (List (String × String)) × AuthStrategy
  | .noAuth => ([], .ok [], .noAuth)
  | .bearerAuth apiKey => ([], .ok (bearer apiKey), .bearerAuth apiKey)
  | .gigaChatOAuth auth =>
      let (events, token, auth) := auth.accessToken py visit forceRefresh
      (events, token.map bearer, .gigaChatOAuth auth)

end AuthStrategy

/-! ## Chat completions -/

/-- What `_chat` does to the outside. -/
inductive ChatEvent (β : Type) where
  | headers (forceRefresh : Bool)
  | token (event : TokenEvent)
  | completion (headers : List (String × String)) (event : Retries.Event (PostAnswer β) PyFloat)

/-- The settings that `_chat` reads. -/
structure LlmSettings where
  llmTimeoutSeconds : ℤ
  llmMaxRetries : ℕ

/-- What the outside answers during one call of `_chat`: to the calls of `headers`, and to the POSTs
of the two series. -/
structure ChatVisit (β : Type) where
  headers : TokenVisit
  server : ℕ → PostAnswer β
  refreshHeaders : TokenVisit
  refreshServer : ℕ → PostAnswer β

namespace OpenAICompatibleClient

variable {β : Type}

/-- The exception after which `_chat` asks for new headers. -/
def asksRefresh (auth : AuthStrategy) : Except LlmError (LlmResponse β) → Bool
  | .error (.llmInvalidResponse _ statusCode) => auth.refreshable ∧ statusCode = some 401
  | _ => false

/-- One series of POSTs: the headers, and then `_post_with_retries`. -/
def series (py : PyRuntime) (settings : LlmSettings) (auth : AuthStrategy) (visit : TokenVisit)
    (server : ℕ → PostAnswer β) (forceRefresh : Bool) :
    List (ChatEvent β) × Except LlmError (Except LlmError (LlmResponse β)) × AuthStrategy :=
  let (tokenEvents, headers, auth) := auth.headers py visit forceRefresh
  let asked := .headers forceRefresh :: tokenEvents.map .token
  match headers with
  | .error e => (asked, .error e, auth)
  | .ok headers =>
      let (events, result) :=
        LlmHttp.postWithRetries py settings.llmTimeoutSeconds settings.llmMaxRetries server
      (asked ++ events.map (.completion headers), .ok result, auth)

/-- Source: `_chat`. -/
def chat (py : PyRuntime) (settings : LlmSettings) (auth : AuthStrategy) (visit : ChatVisit β) :
    List (ChatEvent β) × Except LlmError (LlmResponse β) × AuthStrategy :=
  match series py settings auth visit.headers visit.server false with
  | (events, .error e, auth) => (events, .error e, auth)
  | (events, .ok result, auth) =>
      if asksRefresh auth result then
        match series py settings auth visit.refreshHeaders visit.refreshServer true with
        | (more, .error e, auth) => (events ++ more, .error e, auth)
        | (more, .ok result, auth) => (events ++ more, result, auth)
      else (events, result, auth)

end OpenAICompatibleClient

end SyncBack
