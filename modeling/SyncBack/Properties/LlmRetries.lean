import SyncBack.Infrastructure.LlmRequests

/-!
# The retries of the requests to the model

How often the server is asked, what decides the result, and how long the pauses are.
`_post_with_retries` clamps what the server asks for with `min` and `max`, and these let a float
that is not a number through; from attempt 1024 on the pause of its own cannot be computed. Up to
those two cases it does its work (`postWithRetries_sound_iff`), and `_chat` stays within its bounds
in any case (`chat_bounded`).
-/

namespace SyncBack

open Retries (Event)

variable {β : Type}

/-! ## Pauses -/

/-- A pause as it should be. -/
def ValidPause (delay : PyFloat) : Prop :=
  ∃ seconds : ℚ, delay = .finite seconds ∧ 0 ≤ seconds ∧ seconds ≤ 30

namespace LlmHttp

variable {py : PyRuntime}

/-- What lies between the bounds is a pause, unless it is NaN. -/
theorem min_max_valid_iff (seconds : PyFloat) :
    ValidPause (PyFloat.pyMin (PyFloat.pyMax seconds (.finite 0)) backoffMaxSeconds) ↔
      seconds ≠ .nan := by
  cases seconds with
  | finite q =>
      refine iff_of_true ?_ PyFloat.noConfusion
      by_cases hneg : q < 0
      · refine ⟨0, ?_, le_rfl, by decide⟩
        have hclamped : ¬ (30 : ℚ) < 0 := by decide
        simp [PyFloat.pyMin, PyFloat.pyMax, PyFloat.lt, backoffMaxSeconds, hneg, hclamped]
      · by_cases hbig : 30 < q
        · refine ⟨30, ?_, by decide, le_rfl⟩
          simp [PyFloat.pyMin, PyFloat.pyMax, PyFloat.lt, backoffMaxSeconds, hneg, hbig]
        · refine ⟨q, ?_, not_lt.1 hneg, not_lt.1 hbig⟩
          simp [PyFloat.pyMin, PyFloat.pyMax, PyFloat.lt, backoffMaxSeconds, hneg, hbig]
  | infinity => exact iff_of_true ⟨30, rfl, by decide, le_rfl⟩ PyFloat.noConfusion
  | negInfinity => exact iff_of_true ⟨0, rfl, le_rfl, by decide⟩ PyFloat.noConfusion
  | nan =>
      refine iff_of_false ?_ fun h => h rfl
      rintro ⟨seconds, heq, -⟩
      cases heq

/-- The pause after an attempt can be read, or computed without a header. -/
def Readable (py : PyRuntime) (attempt : ℕ) (retryAfter : Option String) : Prop :=
  match retryAfter.bind py.float with
  | some seconds => seconds ≠ .nan
  | none => attempt < 1024

/-- The pause before an attempt is valid when the header can be read. -/
theorem backoffDelay_valid_iff (attempt : ℕ) (retryAfter : Option String) :
    (∃ delay, backoffDelay py attempt retryAfter = .ok delay ∧ ValidPause delay) ↔
      Readable py attempt retryAfter := by
  unfold backoffDelay Readable
  cases retryAfter.bind py.float with
  | some seconds =>
      dsimp only
      rw [← min_max_valid_iff]
      constructor
      · rintro ⟨delay, hdelay, hvalid⟩
        cases hdelay
        exact hvalid
      · exact fun h => ⟨_, rfl, h⟩
  | none =>
      by_cases hlt : attempt < 1024
      · refine iff_of_true ⟨_, by simp only [backoffBase, if_pos hlt]; rfl, ?_⟩ hlt
        by_cases hbig : (30 : ℚ) < 2 ^ attempt
        · refine ⟨30, ?_, by decide, le_rfl⟩
          simp [PyFloat.pyMin, PyFloat.lt, backoffMaxSeconds, hbig]
        · refine ⟨2 ^ attempt, ?_, pow_nonneg (by decide) attempt, not_lt.1 hbig⟩
          simp [PyFloat.pyMin, PyFloat.lt, backoffMaxSeconds, hbig]
      · refine iff_of_false ?_ hlt
        rintro ⟨delay, hdelay, -⟩
        simp only [backoffBase, if_neg hlt] at hdelay
        cases hdelay

/-! ## One series of POSTs -/

/-- A success, or a status that is not repeated. -/
def decisive : PostAnswer β → Bool
  | .response r => r.isSuccess || !isRetryableStatus r.statusCode
  | _ => false

/-- The result that a decisive response stands for. -/
def resultOf (r : LlmResponse β) : Except LlmError (LlmResponse β) :=
  if r.isSuccess then .ok r
  else .error (.llmInvalidResponse s!"LLM вернула HTTP {r.statusCode}" (some r.statusCode))

/-- The first decisive answer decides the result; without one it is an `LLMTimeoutError` with the
failure of the last attempt. -/
def Decided (timeoutSeconds : ℤ) (maxRetries : ℕ) (server : ℕ → PostAnswer β)
    (result : Except LlmError (LlmResponse β)) : Prop :=
  match (List.range (maxRetries + 1)).find? fun attempt => decisive (server attempt) with
  | some attempt => ∃ r, server attempt = .response r ∧ result = resultOf r
  | none =>
      result = .error (.llmTimeout (failure (postTexts timeoutSeconds) (server maxRetries) ++
        s!" (попыток: {maxRetries + 1})"))

/-- What `_post_with_retries` is for. -/
structure RetriesSound (py : PyRuntime) (timeoutSeconds : ℤ) (maxRetries : ℕ)
    (server : ℕ → PostAnswer β) : Prop where
  posts_le : (postWithRetries py timeoutSeconds maxRetries server).1.countP Event.isSent ≤
    maxRetries + 1
  decided : Decided timeoutSeconds maxRetries server
    (postWithRetries py timeoutSeconds maxRetries server).2
  pauses : ∀ delay, .paused delay ∈ (postWithRetries py timeoutSeconds maxRetries server).1 →
    ValidPause delay

/-- Every pause that the answers lead to can be read, or computed without a header. -/
def PausesReadable (py : PyRuntime) (maxRetries : ℕ) (server : ℕ → PostAnswer β) : Prop :=
  ∀ attempt < maxRetries, (∀ earlier ≤ attempt, decisive (server earlier) = false) →
    Readable py attempt (server attempt).retryAfter

section

variable {α : Type} {texts : RetryTexts} {accept : LlmResponse β → Except LlmError α}

/-- An answer that decides nothing has no verdict. -/
theorem verdict_eq_none_iff (answer : PostAnswer β) :
    verdict texts accept answer = none ↔ decisive answer = false := by
  cases answer with
  | response r =>
      simp only [verdict, decisive]
      cases r.isSuccess <;> cases isRetryableStatus r.statusCode <;> simp
  | timeoutException => exact iff_of_true rfl rfl
  | transportError => exact iff_of_true rfl rfl

/-- The first verdict is that of the first answer that decides. -/
theorem findSome?_verdict (server : ℕ → PostAnswer β) (attempts : List ℕ) :
    attempts.findSome? (fun attempt => verdict texts accept (server attempt)) =
      (attempts.find? fun attempt => decisive (server attempt)).bind fun attempt =>
        verdict texts accept (server attempt) := by
  induction attempts with
  | nil => rfl
  | cons attempt attempts ih =>
      cases hdecisive : decisive (server attempt) with
      | false =>
          rw [List.findSome?_cons_of_isNone, List.find?_cons_of_neg, ih]
          · simp [hdecisive]
          · rw [(verdict_eq_none_iff _).2 hdecisive]
            rfl
      | true =>
          rw [List.findSome?_cons_of_isSome, List.find?_cons_of_pos]
          · rfl
          · exact hdecisive
          · rw [Option.isSome_iff_ne_none, Ne, verdict_eq_none_iff, hdecisive]
            exact nofun

/-- The policy gives the same verdict. -/
theorem retryPolicy_verdict (answer : PostAnswer β) :
    (retryPolicy py texts accept).verdict answer = verdict texts accept answer := rfl

/-- It can pause exactly when the header can be read. -/
theorem pausable_iff (attempt : ℕ) (answer : PostAnswer β) :
    (retryPolicy py texts accept).Pausable ValidPause attempt answer ↔
      Readable py attempt answer.retryAfter := by
  rw [← backoffDelay_valid_iff]
  unfold Retries.Policy.Pausable
  simp only [retryPolicy]
  cases backoffDelay py attempt answer.retryAfter with
  | ok delay => simp [Except.mapError]
  | error e => simp [Except.mapError]

/-- A valid pause is not refused. -/
theorem refusal_of_valid (delay : PyFloat) (h : ValidPause delay) :
    (retryPolicy py texts accept).refusal delay = none := by
  obtain ⟨seconds, rfl, -⟩ := h
  rfl

/-- A pause that cannot be computed is an overflow. -/
theorem delay_error {attempt : ℕ} {answer : PostAnswer β} {result : Except LlmError α}
    (h : (retryPolicy py texts accept).delay attempt answer = .error result) :
    result = .error .overflow := by
  simp only [retryPolicy, backoffDelay, backoffBase] at h
  split at h
  · cases h
  · split at h
    · cases h
    · cases h
      rfl

end

variable {timeoutSeconds : ℤ} {maxRetries : ℕ} {server : ℕ → PostAnswer β}

/-- A deciding response has a result. -/
theorem verdict_ok_of_decisive {r : LlmResponse β} (h : decisive (.response r) = true) :
    verdict (postTexts timeoutSeconds) .ok (.response r) = some (resultOf r) := by
  simp only [verdict, decisive, resultOf] at h ⊢
  cases hsuccess : r.isSuccess with
  | true => rw [if_pos rfl, if_pos rfl]
  | false =>
      rw [hsuccess, Bool.false_or, Bool.not_eq_true'] at h
      rw [if_neg Bool.false_ne_true, if_neg Bool.false_ne_true, h, if_neg Bool.false_ne_true]
      rfl

/-- No answer is an overflow. -/
theorem verdict_ok_ne_overflow (answer : PostAnswer β) :
    verdict (postTexts timeoutSeconds) .ok answer ≠ some (.error .overflow) := by
  cases hdecisive : decisive answer with
  | false =>
      rw [(verdict_eq_none_iff answer).2 hdecisive]
      exact nofun
  | true =>
      cases answer with
      | response r =>
          rw [verdict_ok_of_decisive hdecisive, resultOf]
          split <;> exact nofun
      | timeoutException => cases hdecisive
      | transportError => cases hdecisive

/-- The policy decides what the answers stand for. -/
theorem decided_iff (result : Except LlmError (LlmResponse β)) :
    Decided timeoutSeconds maxRetries server result ↔
      result = (retryPolicy py (postTexts timeoutSeconds) .ok).decision maxRetries server := by
  simp only [Decided, Retries.Policy.decision, Retries.Policy.decisionOf, retryPolicy,
    findSome?_verdict]
  cases hfind : (List.range (maxRetries + 1)).find? fun attempt => decisive (server attempt) with
  | none => exact Iff.rfl
  | some attempt =>
      have hdecisive := List.find?_some hfind
      dsimp only at hdecisive ⊢
      cases hanswer : server attempt with
      | response r =>
          rw [hanswer] at hdecisive
          simp [hanswer, verdict_ok_of_decisive hdecisive]
      | timeoutException => rw [hanswer] at hdecisive; cases hdecisive
      | transportError => rw [hanswer] at hdecisive; cases hdecisive

/-- `_post_with_retries` does its work exactly when every pause can be read or computed. -/
theorem postWithRetries_sound_iff :
    RetriesSound py timeoutSeconds maxRetries server ↔ PausesReadable py maxRetries server := by
  have hsound := Retries.Policy.run_sound_iff (P := retryPolicy py (postTexts timeoutSeconds) .ok)
    maxRetries server refusal_of_valid fun attempt answer result hdelay => by
      rw [delay_error hdelay]
      exact ⟨verdict_ok_ne_overflow, fun _ _ => nofun⟩
  simp only [pausable_iff, retryPolicy_verdict, verdict_eq_none_iff] at hsound
  refine Iff.trans ?_ hsound
  constructor
  · exact fun h => ⟨(decided_iff _).1 h.decided, h.pauses⟩
  · exact fun h => ⟨Retries.Policy.run_sent_le _ _ _, (decided_iff _).2 h.1, h.2⟩

/-- A refusal with a status comes from a last response with that status. -/
theorem refused_ends {message : String} {statusCode : ℕ}
    (h : (postWithRetries py timeoutSeconds maxRetries server).2 =
      .error (.llmInvalidResponse message (some statusCode))) :
    ∃ before r, (postWithRetries py timeoutSeconds maxRetries server).1 =
      before ++ [.sent (.response r)] ∧ r.statusCode = statusCode := by
  have hends := (retryPolicy py (postTexts timeoutSeconds) .ok).loop_ends maxRetries server
    (List.range (maxRetries + 1))
  obtain ⟨before, attempt, hevents, hverdict⟩ | ⟨attempt, hlast⟩ | ⟨attempt, hdelay⟩ |
    ⟨delay, hrefusal⟩ | hunreachable := hends
  · refine ⟨before, ?_⟩
    have hresult : verdict (postTexts timeoutSeconds) .ok (server attempt) =
        some (.error (.llmInvalidResponse message (some statusCode))) := hverdict.trans (congrArg some h)
    cases hdecisive : decisive (server attempt) with
    | false =>
        rw [(verdict_eq_none_iff _).2 hdecisive] at hresult
        cases hresult
    | true =>
        cases hanswer : server attempt with
        | response r =>
            rw [hanswer] at hdecisive hresult hevents
            rw [verdict_ok_of_decisive hdecisive, resultOf] at hresult
            refine ⟨r, hevents, ?_⟩
            split at hresult
            · cases hresult
            · cases hresult
              rfl
        | timeoutException => rw [hanswer] at hdecisive; cases hdecisive
        | transportError => rw [hanswer] at hdecisive; cases hdecisive
  · cases h.symm.trans hlast
  · cases h.symm.trans (delay_error hdelay)
  · rw [show ((retryPolicy py (postTexts timeoutSeconds) .ok).loop maxRetries server
      (List.range (maxRetries + 1))).2 = _ from h] at hrefusal
    cases delay with
    | nan =>
        simp only [retryPolicy, sleep] at hrefusal
        split at hrefusal <;> cases hrefusal
    | _ => cases hrefusal
  · cases h.symm.trans hunreachable

end LlmHttp

/-! ## `_chat` -/

/-- A POST of `_chat`. -/
def ChatEvent.isPost : ChatEvent β → Bool
  | .completion _ event => event.isSent
  | _ => false

/-- A POST to the OAuth server. -/
def TokenEvent.isPost : TokenEvent → Bool
  | .oauth event => event.isSent
  | .stored _ _ => false

/-- A POST of `_chat` to the OAuth server. -/
def ChatEvent.isTokenPost : ChatEvent β → Bool
  | .token event => event.isPost
  | _ => false

/-- A forced refresh of the token. -/
def ChatEvent.isRefresh : ChatEvent β → Bool
  | .headers forceRefresh => forceRefresh
  | _ => false

/-- The POSTs that a call of `headers` may send. -/
def AuthStrategy.tokenPosts : AuthStrategy → ℕ
  | .gigaChatOAuth auth => auth.maxRetries + 1
  | _ => 0

/-- The bounds of `_chat`. -/
structure ChatBounded (settings : LlmSettings) (auth : AuthStrategy)
    (events : List (ChatEvent β)) : Prop where
  posts_le : events.countP ChatEvent.isPost ≤ 2 * (settings.llmMaxRetries + 1)
  tokenPosts_le : events.countP ChatEvent.isTokenPost ≤ 2 * auth.tokenPosts
  refreshes_le : events.countP ChatEvent.isRefresh ≤ 1
  /-- A refresh follows a 401, and only with a refreshable strategy. -/
  refreshed : ∀ before after, events = before ++ .headers true :: after →
    auth.refreshable = true ∧ ∃ earlier headers r,
      before = earlier ++ [.completion headers (.sent (.response r))] ∧ r.statusCode = 401

namespace GigaChatOAuth

variable {py : PyRuntime}

/-- Renewing the token posts within the budget and leaves it as it is. -/
theorem renew_bounded (auth : GigaChatOAuth) (visit : TokenVisit) :
    (auth.renew py visit).1.countP TokenEvent.isPost ≤ auth.maxRetries + 1 ∧
      (auth.renew py visit).2.2.maxRetries = auth.maxRetries := by
  have hsent : (auth.fetchToken py visit).1.countP Event.isSent ≤ auth.maxRetries + 1 :=
    Retries.Policy.run_sent_le _ _ _
  have hmap : ∀ events : List (Event OAuthAnswer PyFloat),
      (events.map TokenEvent.oauth).countP TokenEvent.isPost = events.countP Event.isSent :=
    fun events => List.countP_map
  simp only [renew]
  split
  · rename_i events e hfetch
    rw [hfetch] at hsent
    exact ⟨(hmap events).trans_le hsent, rfl⟩
  · rename_i events token expiresAt hfetch
    rw [hfetch] at hsent
    refine ⟨?_, rfl⟩
    rw [List.countP_append, hmap]
    have hstored : (if auth.hasCache then [TokenEvent.stored token expiresAt] else []).countP
        TokenEvent.isPost = 0 := by
      split <;> rfl
    rw [hstored]
    exact hsent

/-- So does asking for the token. -/
theorem accessToken_bounded (auth : GigaChatOAuth) (visit : TokenVisit) (forceRefresh : Bool) :
    (auth.accessToken py visit forceRefresh).1.countP TokenEvent.isPost ≤ auth.maxRetries + 1 ∧
      (auth.accessToken py visit forceRefresh).2.2.maxRetries = auth.maxRetries := by
  simp only [accessToken]
  split
  · exact auth.renew_bounded visit
  · split
    · exact ⟨Nat.zero_le _, rfl⟩
    · split
      · split
        · exact ⟨Nat.zero_le _, rfl⟩
        · exact renew_bounded _ visit
      · exact auth.renew_bounded visit

end GigaChatOAuth

/-- So do the headers of each strategy. -/
theorem AuthStrategy.headers_bounded (py : PyRuntime) (auth : AuthStrategy) (visit : TokenVisit)
    (forceRefresh : Bool) :
    (auth.headers py visit forceRefresh).1.countP TokenEvent.isPost ≤ auth.tokenPosts ∧
      (auth.headers py visit forceRefresh).2.2.tokenPosts = auth.tokenPosts ∧
      (auth.headers py visit forceRefresh).2.2.refreshable = auth.refreshable := by
  cases auth with
  | noAuth => exact ⟨le_rfl, rfl, rfl⟩
  | bearerAuth apiKey => exact ⟨le_rfl, rfl, rfl⟩
  | gigaChatOAuth auth =>
      obtain ⟨hposts, hretries⟩ := @GigaChatOAuth.accessToken_bounded py auth visit forceRefresh
      exact ⟨hposts, congrArg (· + 1) hretries, rfl⟩

namespace OpenAICompatibleClient

variable {py : PyRuntime} {settings : LlmSettings}

/-- What a series sends after it has asked for headers. -/
structure SeriesBounded (settings : LlmSettings) (auth : AuthStrategy)
    (rest : List (ChatEvent β)) : Prop where
  posts_le : rest.countP ChatEvent.isPost ≤ settings.llmMaxRetries + 1
  tokenPosts_le : rest.countP ChatEvent.isTokenPost ≤ auth.tokenPosts
  no_headers : ∀ force, .headers force ∉ rest

/-- The ending of a series that asks for a refresh: a 401. -/
def EndsRefused (events : List (ChatEvent β)) : Prop :=
  ∃ earlier headers r,
    events = earlier ++ [.completion headers (.sent (.response r))] ∧ r.statusCode = 401

section

variable (tokenEvents : List TokenEvent) (headers : List (String × String))
  (events : List (Event (PostAnswer β) PyFloat))

/-- The posts for a token are posts. -/
theorem countP_token_isPost :
    (tokenEvents.map (ChatEvent.token (β := β))).countP ChatEvent.isPost = 0 := by
  rw [List.countP_map]
  exact congrFun List.countP_false _

/-- They are posts for a token. -/
theorem countP_token_isTokenPost :
    (tokenEvents.map (ChatEvent.token (β := β))).countP ChatEvent.isTokenPost =
      tokenEvents.countP TokenEvent.isPost := List.countP_map

/-- The attempts of a completion are posts. -/
theorem countP_completion_isPost :
    (events.map (ChatEvent.completion headers)).countP ChatEvent.isPost =
      events.countP Event.isSent := List.countP_map

/-- They are not posts for a token. -/
theorem countP_completion_isTokenPost :
    (events.map (ChatEvent.completion headers)).countP ChatEvent.isTokenPost = 0 := by
  rw [List.countP_map]
  exact congrFun List.countP_false _

end

/-- All that a series can do. -/
theorem series_cases (auth : AuthStrategy) (visit : TokenVisit) (server : ℕ → PostAnswer β)
    (forceRefresh : Bool) :
    ∃ rest result auth', series py settings auth visit server forceRefresh =
        (.headers forceRefresh :: rest, result, auth') ∧
      SeriesBounded settings auth rest ∧ auth'.tokenPosts = auth.tokenPosts ∧
      ∀ r, result = .ok r → asksRefresh auth' r = true →
        auth.refreshable = true ∧ EndsRefused (.headers forceRefresh :: rest) := by
  obtain ⟨hposts, htoken, hrefreshable⟩ := auth.headers_bounded py visit forceRefresh
  simp only [series]
  generalize auth.headers py visit forceRefresh = asked at hposts htoken hrefreshable
  obtain ⟨tokenEvents, headers, auth'⟩ := asked
  cases headers with
  | error e =>
      refine ⟨_, _, _, rfl, ⟨?_, ?_, ?_⟩, htoken, nofun⟩
      · rw [countP_token_isPost]
        exact Nat.zero_le _
      · rwa [countP_token_isTokenPost]
      · simp
  | ok headers =>
      have hsent := Retries.Policy.run_sent_le
        (LlmHttp.retryPolicy py (LlmHttp.postTexts settings.llmTimeoutSeconds) .ok)
        settings.llmMaxRetries server
      refine ⟨tokenEvents.map .token ++ (LlmHttp.postWithRetries py settings.llmTimeoutSeconds
        settings.llmMaxRetries server).1.map (.completion headers), _, _, rfl, ⟨?_, ?_, ?_⟩,
        htoken, ?_⟩
      · rw [List.countP_append, countP_token_isPost, countP_completion_isPost, Nat.zero_add]
        exact hsent
      · rwa [List.countP_append, countP_token_isTokenPost, countP_completion_isTokenPost]
      · simp
      · intro r hr hasks
        cases hr
        unfold asksRefresh at hasks
        split at hasks
        · rename_i message statusCode hresult
          obtain ⟨hauth, rfl⟩ := of_decide_eq_true hasks
          obtain ⟨before, r, hevents, hstatus⟩ := LlmHttp.refused_ends hresult
          refine ⟨hrefreshable.symm.trans hauth,
            .headers forceRefresh :: (tokenEvents.map .token ++ before.map (.completion headers)),
            headers, r, ?_, hstatus⟩
          rw [hevents]
          simp
        · cases hasks

/-- Without a refresh no refresh follows. -/
theorem SeriesBounded.refreshes {auth : AuthStrategy} {rest : List (ChatEvent β)}
    (h : SeriesBounded settings auth rest) : rest.countP ChatEvent.isRefresh = 0 := by
  rw [List.countP_eq_zero]
  intro event hmem hrefresh
  cases event with
  | headers force => exact h.no_headers force hmem
  | token event => cases hrefresh
  | completion headers event => cases hrefresh

/-- A series on its own stays within the bounds of `_chat`. -/
theorem SeriesBounded.chat {auth : AuthStrategy} {rest : List (ChatEvent β)}
    (h : SeriesBounded settings auth rest) : ChatBounded settings auth (.headers false :: rest) := by
  have hposts := h.posts_le
  have htokens := h.tokenPosts_le
  refine ⟨?_, ?_, ?_, ?_⟩
  · rw [List.countP_cons_of_neg (by exact nofun)]
    omega
  · rw [List.countP_cons_of_neg (by exact nofun)]
    omega
  · rw [List.countP_cons_of_neg (by exact nofun), h.refreshes]
    exact Nat.zero_le _
  · intro before after heq
    have hmem : ChatEvent.headers true ∈ ChatEvent.headers false :: rest := heq ▸ by simp
    simp [h.no_headers] at hmem

/-- So do two of them, the second after a 401. -/
theorem SeriesBounded.chat_refreshed {auth auth' : AuthStrategy} {first second : List (ChatEvent β)}
    (hfirst : SeriesBounded settings auth first) (hsecond : SeriesBounded settings auth' second)
    (htoken : auth'.tokenPosts = auth.tokenPosts) (hauth : auth.refreshable = true)
    (hends : EndsRefused (.headers false :: first)) :
    ChatBounded settings auth (.headers false :: first ++ .headers true :: second) := by
  have hposts := hfirst.posts_le
  have htokens := hfirst.tokenPosts_le
  have hposts' := hsecond.posts_le
  have htokens' := htoken ▸ hsecond.tokenPosts_le
  refine ⟨?_, ?_, ?_, ?_⟩
  · rw [List.countP_append, List.countP_cons_of_neg (by exact nofun),
      List.countP_cons_of_neg (by exact nofun)]
    omega
  · rw [List.countP_append, List.countP_cons_of_neg (by exact nofun),
      List.countP_cons_of_neg (by exact nofun)]
    omega
  · rw [List.countP_append, List.countP_cons_of_neg (by exact nofun),
      List.countP_cons_of_pos (by rfl), hfirst.refreshes, hsecond.refreshes]
  · intro before after heq
    have hbefore : ChatEvent.headers true ∉ ChatEvent.headers false :: first := by
      simp [hfirst.no_headers]
    obtain ⟨rfl, -, -⟩ :=
      (List.append_cons_inj_of_notMem hbefore (hsecond.no_headers true)).1 heq
    exact ⟨hauth, hends⟩

/-- **The bounds of `_chat`**, whatever the servers answer. -/
theorem chat_bounded (py : PyRuntime) (settings : LlmSettings) (auth : AuthStrategy)
    (visit : ChatVisit β) : ChatBounded settings auth (chat py settings auth visit).1 := by
  obtain ⟨first, result, auth', hseries, hfirst, htoken, hasked⟩ :=
    @series_cases β py settings auth visit.headers visit.server false
  simp only [chat, hseries]
  cases result with
  | error e => exact hfirst.chat
  | ok result =>
      dsimp only
      split
      · rename_i hasks
        obtain ⟨hauth, hends⟩ := hasked result rfl hasks
        obtain ⟨second, result', auth'', hseries', hsecond, -⟩ :=
          @series_cases β py settings auth' visit.refreshHeaders visit.refreshServer true
        rw [hseries']
        cases result' with
        | error e => exact hfirst.chat_refreshed hsecond htoken hauth hends
        | ok result' => exact hfirst.chat_refreshed hsecond htoken hauth hends
      · exact hfirst.chat

end OpenAICompatibleClient

/-! ## Both together -/

/-- **When the retries do their work**: `_post_with_retries` sends at most `max_retries + 1` POSTs,
the first decisive answer decides its result, and its pauses are valid, exactly when no pause that
it comes to is read as not a number or has to be computed from attempt 1024 on; and `_chat` stays
within its bounds. -/
theorem retries_sound_iff (py : PyRuntime) (timeoutSeconds : ℤ) (maxRetries : ℕ)
    (server : ℕ → PostAnswer β) (settings : LlmSettings) (auth : AuthStrategy)
    (visit : ChatVisit β) :
    (LlmHttp.RetriesSound py timeoutSeconds maxRetries server ∧
        ChatBounded settings auth (OpenAICompatibleClient.chat py settings auth visit).1) ↔
      LlmHttp.PausesReadable py maxRetries server := by
  rw [LlmHttp.postWithRetries_sound_iff]
  exact and_iff_left (OpenAICompatibleClient.chat_bounded py settings auth visit)

/-- A runtime in which `float` reads this one string. -/
def nanRuntime : PyRuntime where
  float s := if s = "nan" then some .nan else none
  add _ _ := .nan
  sub _ _ := .nan
  div _ _ := .nan
  sleepRefusesNan := true

/-- A server that is busy at first. -/
def busyServer (attempt : ℕ) : PostAnswer Unit :=
  .response ⟨if attempt = 0 then 503 else 200, some "nan", ()⟩

/-- With `Retry-After: nan` the pause is not a number. -/
theorem nan_pause :
    ¬ ∀ (maxRetries : ℕ) (server : ℕ → PostAnswer Unit),
      LlmHttp.RetriesSound nanRuntime 60 maxRetries server := by
  intro hall
  have hpauses := LlmHttp.postWithRetries_sound_iff.1 (hall 3 busyServer)
  refine hpauses 0 (by decide) ?_ rfl
  intro earlier hle
  rw [Nat.le_zero.1 hle]
  rfl

end SyncBack
