import SyncBack.Properties.RefreshRotation

/-!
# Failed logins are limited

A login checks the counter of its email and address, verifies the password, and counts a failure:
three steps, between which other logins take theirs. The check compares the counter alone, so that
logins that have passed it and not failed yet are not seen by it.

* `Tally` — the counter together with the logins that are under way; as long as every check that
  lets a login pass finds them below the limit together, no more than the limit fail (`Tally.Safe`);
* `login_lockout` — in every run of calls whose checks do so;
* `more_failures_than_attempts` — a run in which they do not.
-/

set_option linter.unusedSectionVars false

namespace SyncBack

open Effects Effects.Config

/-! ## How far a login is -/

/-- The stages of a login. -/
inductive LoginStage where
  | start
  /-- The check of the lock has let it pass. -/
  | passed
  | locked
  | unknownUser
  | proved
  /-- The password was wrong, which is not counted yet. -/
  | failed
  | counted
  deriving DecidableEq

/-- `is_locked` answers `False`. -/
def letsPass (settings : AuthSettings) : Option RedisValue → Bool
  | none => true
  | some (.counter n) => decide (n < settings.loginMaxAttempts)
  | some (.userId _) => false

/-- The stage after a command. -/
def LoginStage.next (settings : AuthSettings) (stage : LoginStage) :
    Sigma AuthCmd.Resp → LoginStage
  | ⟨.get _, (value : Option RedisValue)⟩ =>
      if letsPass settings value = true then .passed else .locked
  | ⟨.getByEmail _, (user : Option User)⟩ => if user.isSome = true then stage else .unknownUser
  | ⟨.verify _ _, (valid : Bool)⟩ => if valid = true then .proved else .failed
  | ⟨.incrExpire _ _, _⟩ => .counted
  | _ => stage

/-- The stage after some commands, the latest first. -/
def loginStage (settings : AuthSettings) : List (Sigma AuthCmd.Resp) → LoginStage
  | [] => .start
  | e :: es => (loginStage settings es).next settings e

/-- The key of the counter for a login. -/
def AuthCall.attemptsKey (lower : Text → Text) : AuthCall → Option String
  | .authenticate email _ clientIp => some (SyncBack.attemptsKey lower email clientIp)
  | .refreshAccessToken _ | .logout _ => none

/-- The password of a login meets the policy. -/
def AuthCall.meetsPolicy (policy : PasswordPolicy) : AuthCall → Bool
  | .authenticate _ password _ => policy.isSatisfiedBy password
  | .refreshAccessToken _ | .logout _ => false

/-- What a call may do in a stage. -/
def LoginStage.allows (lower : Text → Text) (policy : PasswordPolicy) (call : AuthCall)
    (stage : LoginStage) : Sigma AuthCmd.Resp → Prop
  | ⟨.get key, _⟩ => stage = .start ∧ call.attemptsKey lower = some key
  | ⟨.getByEmail _, _⟩ => stage = .passed
  | ⟨.verify _ _, _⟩ => stage = .passed ∧ call.meetsPolicy policy = true
  | ⟨.incrExpire key _, _⟩ => call.attemptsKey lower = some key
  | ⟨.set key _ _, _⟩ => ∃ jti, key = tokenKey jti
  | _ => True

/-- Each command was allowed where it was given. -/
def Orderly (settings : AuthSettings) (lower : Text → Text) (policy : PasswordPolicy)
    (call : AuthCall) : List (Sigma AuthCmd.Resp) → Prop
  | [] => True
  | e :: es => (loginStage settings es).allows lower policy call e ∧
      Orderly settings lower policy call es

/-- Whether the password was right. -/
def verified : Sigma AuthCmd.Resp → Option Bool
  | ⟨.verify _ _, (valid : Bool)⟩ => some valid
  | _ => none

/-- The key whose counter was read. -/
def checkedKey : Sigma AuthCmd.Resp → Option String
  | ⟨.get key, _⟩ => some key
  | _ => none

/-- The counter for the key was read, and let the login pass. -/
def passedCheck (settings : AuthSettings) (key : String) : Sigma AuthCmd.Resp → Option Unit
  | ⟨.get key', (value : Option RedisValue)⟩ =>
      if key' = key ∧ letsPass settings value = true then some () else none
  | _ => none

/-- A login that returns tokens has verified its password. -/
def LoginVerified (lower : Text → Text) (call : AuthCall) (r : Except AuthError (Option TokenPair))
    (es : List (Sigma AuthCmd.Resp)) : Prop :=
  ∀ a key, r = .ok a → call.attemptsKey lower = some key → true ∈ es.filterMap verified

section

variable (settings : AuthSettings) (lower : Text → Text) (policy : PasswordPolicy)
  {call : AuthCall} {es : List (Sigma AuthCmd.Resp)}

/-- Issuing tokens is orderly after a right password, and verifies none. -/
theorem orderly_issueTokens {user : User} (h : Orderly settings lower policy call es) :
    (AuthService.issueTokens settings user).Always (Orderly settings lower policy call)
      (fun _ es' => es'.filterMap verified = es.filterMap verified) es :=
  Prog.Always.call h fun jti => Prog.Always.call ⟨trivial, h⟩ fun _ =>
    ⟨⟨⟨jti, rfl⟩, trivial, h⟩, rfl⟩

/-- Refusing a login is orderly: it counts the failure for its own key. -/
theorem orderly_refuse {α : Type} {email : String} {clientIp : Option String}
    {G : Except AuthError α → List (Sigma AuthCmd.Resp) → Prop}
    (hkey : call.attemptsKey lower = some (attemptsKey lower email clientIp))
    (h : Orderly settings lower policy call es) (herror : ∀ e es, G (.error e) es) :
    (AuthService.refuse settings lower email clientIp : AuthSession α).Always
      (Orderly settings lower policy call) G es :=
  Prog.Always.call h fun _ => ⟨⟨hkey, h⟩, herror _ _⟩

/-- **A login gives its commands in order**, and returns tokens only after a right password. -/
theorem orderly_authenticate {email password : String} {clientIp : Option String} :
    (AuthService.authenticate settings lower policy email password clientIp).Always
      (Orderly settings lower policy (.authenticate email password clientIp))
      (fun r es => (∃ pair, r = .ok pair) → true ∈ es.filterMap verified) [] := by
  have hkey : (AuthCall.authenticate email password clientIp).attemptsKey lower =
      some (attemptsKey lower email clientIp) := rfl
  refine Prog.Always.bind (A := fun locked es => locked.1 = false → loginStage settings es = .passed)
    (E := fun _ _ => True) (fun locked es h hpassed => ?_) (fun _ _ _ ⟨_, hr⟩ => nomatch hr) ?_
  · obtain ⟨isLocked, retryAfter⟩ := locked
    dsimp only
    split
    · exact ⟨h, fun ⟨_, hr⟩ => nomatch hr⟩
    rename_i hlocked
    have hstage := hpassed (Bool.eq_false_iff.mpr hlocked)
    unfold AuthService.checkPassword
    split
    · rename_i hpolicy
      refine Prog.Always.call h fun user => ?_
      cases user with
      | none =>
        refine Prog.Always.call ⟨hstage, h⟩ fun _ => ?_
        exact orderly_refuse settings lower policy hkey ⟨trivial, hstage, h⟩
          fun _ _ ⟨_, hr⟩ => nomatch hr
      | some user =>
        refine Prog.Always.call ⟨hstage, h⟩ fun valid => ?_
        cases valid with
        | true =>
          refine Prog.Always.call ⟨⟨hstage, hpolicy⟩, hstage, h⟩ fun n => ?_
          refine Prog.Always.mono (fun _ hes => hes) (fun r es' hes' _ => ?_)
            (orderly_issueTokens settings lower policy
              ⟨trivial, ⟨hstage, hpolicy⟩, hstage, h⟩)
          rw [hes']
          exact List.mem_cons_self
        | false =>
          exact orderly_refuse settings lower policy hkey ⟨⟨hstage, hpolicy⟩, hstage, h⟩
            fun _ _ ⟨_, hr⟩ => nomatch hr
    · exact orderly_refuse settings lower policy hkey h fun _ _ ⟨_, hr⟩ => nomatch hr
  · refine Prog.Always.call trivial fun attempts => ?_
    rcases attempts with _ | n | _
    · exact ⟨⟨⟨rfl, hkey⟩, trivial⟩, fun _ => rfl⟩
    · dsimp only
      split
      · rename_i hn
        exact ⟨⟨⟨rfl, hkey⟩, trivial⟩, fun _ => if_pos (decide_eq_true hn)⟩
      · exact Prog.Always.call ⟨⟨rfl, hkey⟩, trivial⟩ fun ttl =>
          ⟨⟨trivial, ⟨rfl, hkey⟩, trivial⟩, fun h => nomatch h⟩
    · exact ⟨⟨⟨rfl, hkey⟩, trivial⟩, trivial⟩

/-- Refreshing a token verifies no password. -/
theorem orderly_refreshAccessToken {token : Except AuthError RefreshPayload} :
    (AuthService.refreshAccessToken settings token).Always
      (Orderly settings lower policy (.refreshAccessToken token)) (fun _ _ => True) [] := by
  unfold AuthService.refreshAccessToken
  split
  · exact ⟨trivial, trivial⟩
  · split
    · exact ⟨trivial, trivial⟩
    · refine Prog.Always.call trivial fun (n : ℕ) => ?_
      change (if decide (0 < n) = true then _ else _ : AuthSession TokenPair).Always _ _ _
      split
      · refine Prog.Always.call ⟨trivial, trivial⟩ fun user => ?_
        cases user with
        | none => exact ⟨⟨trivial, trivial, trivial⟩, trivial⟩
        | some user =>
          exact Prog.Always.mono (fun _ hes => hes) (fun _ _ _ => trivial)
            (orderly_issueTokens settings lower policy ⟨trivial, trivial, trivial⟩)
      · exact ⟨⟨trivial, trivial⟩, trivial⟩

/-- Neither does a logout. -/
theorem orderly_logout {token : Except AuthError RefreshPayload} :
    (AuthService.logout token).Always (Orderly settings lower policy (.logout token))
      (fun _ _ => True) [] := by
  unfold AuthService.logout
  split
  · exact ⟨trivial, trivial⟩
  · split
    · exact ⟨trivial, trivial⟩
    · exact Prog.Always.call trivial fun n => ⟨⟨trivial, trivial⟩, trivial⟩

/-- **The order of a call's commands**, whatever the answers. -/
theorem orderly_program (call : AuthCall) :
    (call.program settings lower policy).Always (Orderly settings lower policy call)
      (LoginVerified lower call) [] := by
  cases call with
  | authenticate email password clientIp =>
    exact (orderly_authenticate settings lower policy).map (fun pair _ h _ _ _ _ => h ⟨pair, rfl⟩)
      fun _ _ _ _ _ hr => nomatch hr
  | refreshAccessToken token =>
    exact (orderly_refreshAccessToken settings lower policy).map (fun _ _ _ _ _ _ hkey => nomatch hkey)
      fun _ _ _ _ _ _ hkey => nomatch hkey
  | logout token =>
    exact (orderly_logout settings lower policy).map (f := fun _ => none)
      (fun _ _ _ _ _ _ hkey => nomatch hkey) fun _ _ _ _ _ _ hkey => nomatch hkey

end

/-! ## What the order of the commands says -/

namespace Orderly

variable {settings : AuthSettings} {lower : Text → Text} {policy : PasswordPolicy}
  {call : AuthCall} {es : List (Sigma AuthCmd.Resp)}

/-- A call that has passed the check has read its own counter. -/
theorem passed : ∀ {es : List (Sigma AuthCmd.Resp)}, Orderly settings lower policy call es →
    loginStage settings es = .passed ∨ loginStage settings es = .failed →
    ∃ key, call.attemptsKey lower = some key ∧ es.filterMap (passedCheck settings key) ≠ []
  | [], _, hstage => by
      rcases hstage with hstage | hstage <;> cases hstage
  | ⟨cmd, r⟩ :: es, h, hstage => by
      -- Any other command comes after the check, or leaves the stage as it is.
      have hlater : loginStage settings es = .passed ∨ loginStage settings es = .failed →
          ∃ key, call.attemptsKey lower = some key ∧
            List.filterMap (passedCheck settings key) (⟨cmd, r⟩ :: es) ≠ [] := by
        intro hes
        obtain ⟨key, hkey, hne⟩ := passed h.2 hes
        refine ⟨key, hkey, fun hnil => hne ?_⟩
        rw [List.filterMap_cons] at hnil
        split at hnil
        · exact hnil
        · cases hnil
      cases cmd with
      | get key =>
        refine ⟨key, h.1.2, ?_⟩
        change (if letsPass settings r = true then _ else _) = _ ∨
          (if letsPass settings r = true then _ else _) = _ at hstage
        split at hstage
        · rename_i hpass
          have hhead : passedCheck settings key ⟨.get key, r⟩ = some () := if_pos ⟨rfl, hpass⟩
          rw [List.filterMap_cons_some hhead]
          exact List.cons_ne_nil _ _
        · rcases hstage with hstage | hstage <;> cases hstage
      | getByEmail email => exact hlater (.inl h.1)
      | verify password passwordHash => exact hlater (.inl h.1.1)
      | incrExpire key seconds => rcases hstage with hstage | hstage <;> cases hstage
      | ttl key | del key | set key userId seconds | getById id | hash password | uuid4 =>
        exact hlater hstage

/-- An orderly call reads the counter of its own key alone. -/
theorem checked : ∀ {es : List (Sigma AuthCmd.Resp)}, Orderly settings lower policy call es →
    ∀ key ∈ es.filterMap checkedKey, call.attemptsKey lower = some key
  | [], _, _, hmem => absurd hmem List.not_mem_nil
  | ⟨cmd, r⟩ :: es, h, key, hmem => by
      cases cmd with
      | get key' =>
        rcases List.mem_cons.mp hmem with rfl | hmem
        · exact h.1.2
        · exact checked h.2 key hmem
      | _ => exact checked h.2 key hmem

/-- At the start nothing has been read. -/
theorem unchecked : ∀ {es : List (Sigma AuthCmd.Resp)}, Orderly settings lower policy call es →
    loginStage settings es = .start → es.filterMap checkedKey = []
  | [], _, _ => rfl
  | ⟨cmd, r⟩ :: es, h, hstage => by
      cases cmd with
      | get key =>
        change (if letsPass settings r = true then _ else _) = _ at hstage
        split at hstage <;> cases hstage
      | getByEmail email =>
        change (if Option.isSome r = true then loginStage settings es else _) = _ at hstage
        split at hstage
        · exact (unchecked h.2 hstage : es.filterMap checkedKey = [])
        · cases hstage
      | verify password passwordHash =>
        cases (r : Bool) <;> cases hstage
      | incrExpire key seconds => cases hstage
      | ttl key | del key | set key userId seconds | getById id | hash password | uuid4 =>
        exact (unchecked h.2 hstage : es.filterMap checkedKey = [])

/-- A check that let the call pass has read the counter. -/
theorem checked_of_passedCheck {key : String} (h : es.filterMap (passedCheck settings key) ≠ []) :
    key ∈ es.filterMap checkedKey := by
  obtain ⟨_, hmem⟩ := List.exists_mem_of_ne_nil _ h
  obtain ⟨⟨cmd, r⟩, he, hpassed⟩ := List.mem_filterMap.mp hmem
  cases cmd with
  | get key' =>
    obtain ⟨⟨rfl, -⟩, -⟩ := Option.ite_none_right_eq_some.mp hpassed
    exact List.mem_filterMap.mpr ⟨_, he, rfl⟩
  | _ => cases hpassed

/-- Who has verified a password has passed the check. -/
theorem checked_of_verified : ∀ {es : List (Sigma AuthCmd.Resp)},
    Orderly settings lower policy call es → es.filterMap checkedKey = [] → es.filterMap verified = []
  | [], _, _ => rfl
  | ⟨cmd, r⟩ :: es, h, hnil => by
      cases cmd with
      | get key => cases hnil
      | verify password passwordHash =>
        obtain ⟨key, -, hne⟩ := passed h.2 (.inl h.1.1)
        exact absurd (checked_of_passedCheck hne) (List.eq_nil_iff_forall_not_mem.mp hnil key)
      | _ => exact (checked_of_verified h.2 hnil : es.filterMap verified = [])

end Orderly

/-! ## The counter and the logins under way -/

/-- What there is to be counted for one counter. -/
structure Tally where
  /-- Passwords that were verified without success. -/
  failures : ℕ
  /-- Logins that may still verify their password. -/
  awaiting : ℕ
  /-- Logins that have failed and not counted that yet. -/
  uncounted : ℕ
  attempts : ℤ

namespace Tally

/-- What a command does to the counts while the counter is neither removed nor expires. -/
inductive Step (limit : ℤ) (t t' : Tally) : Prop where
  | other (hf : t'.failures = t.failures) (ha : t'.awaiting ≤ t.awaiting)
      (hu : t.uncounted ≤ t'.uncounted) (hn : t'.attempts = t.attempts)
  /-- A login passes the check. -/
  | pass (hroom : t.attempts + t.awaiting + t.uncounted < limit) (hf : t'.failures = t.failures)
      (ha : t'.awaiting ≤ t.awaiting + 1) (hu : t.uncounted ≤ t'.uncounted)
      (hn : t'.attempts = t.attempts)
  /-- A password is wrong. -/
  | fail (hf : t'.failures = t.failures + 1) (ha : t'.awaiting + 1 ≤ t.awaiting)
      (hu : t.uncounted + 1 ≤ t'.uncounted) (hn : t'.attempts = t.attempts)
  /-- A login counts its failure. -/
  | count (hf : t'.failures = t.failures) (ha : t'.awaiting ≤ t.awaiting)
      (hu : t.uncounted ≤ t'.uncounted + 1) (hn : t'.attempts = t.attempts + 1)

/-- The counter is gone. -/
def Forgets (t t' : Tally) : Prop := t'.awaiting ≤ t.awaiting ∧ t'.attempts = 0

/-- Holds at any time. -/
def Bounded (limit : ℤ) (t : Tally) : Prop := (t.awaiting : ℤ) ≤ max 0 limit ∧ 0 ≤ t.attempts

/-- Holds while the counter lasts, when there had been `n` failures before. -/
def Safe (limit : ℤ) (n : ℕ) (t : Tally) : Prop :=
  (t.failures : ℤ) + t.awaiting ≤ n + max 0 limit ∧ (t.failures : ℤ) ≤ n + t.attempts + t.uncounted

variable {limit : ℤ} {n : ℕ} {t t' : Tally}

/-- Failures are never taken back. -/
theorem Step.failures_le (h : t.Step limit t') : t.failures ≤ t'.failures := by
  cases h <;> omega

/-- A fresh check keeps no more logins under way than the limit. -/
theorem Bounded.step (hb : t.Bounded limit) (h : t.Step limit t') : t'.Bounded limit := by
  obtain ⟨hb, hn⟩ := hb
  constructor <;> cases h <;> omega

/-- A counter that is gone keeps them too. -/
theorem Bounded.forgets (hb : t.Bounded limit) (h : t.Forgets t') : t'.Bounded limit := by
  obtain ⟨hb, hn⟩ := hb
  obtain ⟨ha, hzero⟩ := h
  constructor <;> omega

/-- From a bounded tally on, failures and logins under way stay within the limit. -/
theorem Bounded.safe (hb : t.Bounded limit) : t.Safe limit t.failures := by
  obtain ⟨hb, hn⟩ := hb
  constructor <;> omega

/-- One step keeps them there. -/
theorem Safe.step (hs : t.Safe limit n) (h : t.Step limit t') : t'.Safe limit n := by
  obtain ⟨ha, hu⟩ := hs
  constructor <;> cases h <;> omega

end Tally

section

variable {settings : AuthSettings} {lower : Text → Text} {policy : PasswordPolicy} {P : Type}
  [DecidableEq P]

/-- Each call has given its commands in their order. -/
abbrev OrderlyCalls (c : AuthConfig settings lower policy P) : Prop :=
  c.Along (Orderly settings lower policy) (LoginVerified lower)

/-- The calls that have passed the check of the counter. -/
def passedCalls (key : String) (c : AuthConfig settings lower policy P) : List P :=
  (c.occurrences (passedCheck settings key)).map Prod.fst

/-- The counter of a call, if it is a login. -/
def callKey (c : AuthConfig settings lower policy P) (p : P) : Option String :=
  (c.callOf p).bind (AuthCall.attemptsKey lower)

/-- The verifications for the counter that were performed and failed. -/
def failedVerifications (key : String) (c : AuthConfig settings lower policy P) : ℕ :=
  (c.occurrences verified).countP fun x => !x.2 && decide (callKey c x.1 = some key)

/-- The call has passed the check, and its password may yet be verified. -/
def mayVerify (c : AuthConfig settings lower policy P) (p : P) : Bool :=
  match c.procs p with
  | some ⟨call, some _⟩ =>
      AuthCall.meetsPolicy policy call && decide (loginStage settings (c.events p) = .passed)
  | _ => false

/-- The call has failed, and not counted it. -/
def uncounted (c : AuthConfig settings lower policy P) (p : P) : Bool :=
  decide (loginStage settings (c.events p) = .failed)

/-- The failures that are counted. -/
def AuthState.attempts (key : String) (s : AuthState) : ℤ :=
  match s.redis key with
  | some (.counter n) => n
  | _ => 0

/-- A counter that was removed stands at zero. -/
theorem AuthState.attempts_put_none (key : String) (s : AuthState) :
    AuthState.attempts key (s.put key none) = 0 := by
  simp only [AuthState.attempts, AuthState.put_redis, Function.update_self]

/-- Other keys keep their counters. -/
theorem AuthState.attempts_put_of_ne {key key' : String} (hne : key ≠ key')
    (value : Option RedisValue) (s : AuthState) :
    AuthState.attempts key (s.put key' value) = AuthState.attempts key s := by
  simp only [AuthState.attempts, AuthState.put_redis, Function.update_of_ne hne]

/-- The counts for a key. -/
def tally (key : String) (c : AuthConfig settings lower policy P) : Tally where
  failures := failedVerifications key c
  awaiting := (passedCalls key c).countP (mayVerify c)
  uncounted := (passedCalls key c).countP (uncounted c)
  attempts := AuthState.attempts key c.state

/-- **A check that lets a call pass** finds fewer failures counted, and calls under way, than the
limit. -/
def lockCheckFresh (key : String) (c : AuthConfig settings lower policy P) :
    Move (authSystem settings lower policy) P → Bool
  | .act p ⟨.get key', (value : Option RedisValue)⟩ =>
      !(decide (key' = key) && letsPass settings value &&
          (c.callOf p).any (AuthCall.meetsPolicy policy)) ||
        decide ((tally key c).attempts + (tally key c).awaiting + (tally key c).uncounted <
          settings.loginMaxAttempts)
  | _ => true

/-- The counter is not removed, and does not expire. -/
def keepsCounter (key : String) : Move (authSystem settings lower policy) P → Bool
  | .act _ ⟨.del key', _⟩ => decide (key' ≠ key)
  | .env key' => decide (key' ≠ key)
  | _ => true

variable {c c' : AuthConfig settings lower policy P} {key : String}

/-- A call has passed if one of its commands says so. -/
theorem mem_passedCalls {p : P} :
    p ∈ passedCalls key c ↔ (c.events p).filterMap (passedCheck settings key) ≠ [] := by
  unfold passedCalls
  rw [List.mem_map]
  constructor
  · rintro ⟨⟨q, u⟩, hmem, rfl⟩
    exact List.ne_nil_of_mem (mem_occurrences.mp hmem)
  · intro hne
    obtain ⟨u, hu⟩ := List.exists_mem_of_ne_nil _ hne
    exact ⟨(p, u), mem_occurrences.mpr hu, rfl⟩

/-- Whether a call may verify depends on its program and its commands. -/
theorem mayVerify_congr {p : P} (hprocs : c'.procs p = c.procs p)
    (hevents : c'.events p = c.events p) : mayVerify c' p = mayVerify c p := by
  unfold mayVerify
  rw [hprocs, hevents]

/-- Whether its failure is uncounted depends on its commands. -/
theorem uncounted_congr {p : P} (hevents : c'.events p = c.events p) :
    uncounted c' p = uncounted c p := by
  unfold uncounted
  rw [hevents]

/-- A call that has not read its counter has not passed. -/
theorem OrderlyCalls.not_passed (hc : OrderlyCalls c) {p : P} {call : AuthCall}
    {rest : AuthSession (Option TokenPair)} (hp : c.procs p = some ⟨call, some rest⟩)
    (hstage : loginStage settings (c.events p) = .start) : p ∉ passedCalls key c := by
  intro hmem
  have hnil := (hc.here hp).unchecked hstage
  have hread := Orderly.checked_of_passedCheck (mem_passedCalls.mp hmem)
  rw [hnil] at hread
  exact absurd hread List.not_mem_nil

/-- One more command may add a call that has passed. -/
theorem passedCalls_act {p : P} {e : Sigma AuthCmd.Resp}
    {proc : Proc (authSystem settings lower policy)} {s : AuthState} :
    passedCalls key (c.advance (.act p e) p proc s) =
      ((passedCheck settings key e).map fun _ => p).toList ++ passedCalls key c := by
  unfold passedCalls
  rw [occurrences_act]
  cases passedCheck settings key e <;> rfl

/-- No call passes twice. -/
theorem passedCalls_nodup (h : (AuthConfig.start settings lower policy P).Reaches c) :
    (passedCalls key c).Nodup := by
  refine (h.induct (I := fun c => (passedCalls key c).Nodup) (orderly_program settings lower policy)
    List.nodup_nil fun {c c' m} hc _ hnodup hm => ?_).2
  cases m with
  | start p call =>
    obtain ⟨-, s, -, rfl⟩ := move_start hm
    exact hnodup
  | act p e =>
    obtain ⟨call, next, s, hp, -, rfl⟩ := move_act hm
    rw [passedCalls_act]
    obtain ⟨cmd, r⟩ := e
    cases cmd with
    | get key' =>
      have hstart := ((hc.rest hp).2 r).here.1.1
      cases passedCheck settings key ⟨.get key', r⟩ with
      | none => exact hnodup
      | some _ => exact List.nodup_cons.mpr ⟨OrderlyCalls.not_passed hc hp hstart, hnodup⟩
    | _ => exact hnodup
  | stop p =>
    obtain ⟨proc, -, rfl⟩ := move_stop hm
    exact hnodup
  | env e =>
    obtain ⟨s, -, rfl⟩ := move_env hm
    exact hnodup

/-! ## What a move does to the counts -/

/-- One call becomes counted. -/
theorem countP_succ_le {l : List P} {f g : P → Bool} {p : P} (hp : p ∈ l) (hf : f p = false)
    (hg : g p = true) (h : ∀ q, q ≠ p → f q = g q) : l.countP f + 1 ≤ l.countP g := by
  have hle : ∀ q, f q = true → g q = true := by
    intro q hq
    by_cases hqp : q = p
    · exact hqp ▸ hg
    · exact h q hqp ▸ hq
  obtain ⟨a, b, rfl⟩ := List.append_of_mem hp
  have ha := List.countP_mono_left (l := a) fun q _ => hle q
  have hb := List.countP_mono_left (l := b) fun q _ => hle q
  simp only [List.countP_append, List.countP_cons, hf, hg, if_pos, Bool.false_eq_true, if_false]
  omega

/-- At most one call becomes counted. -/
theorem countP_le_succ {f g : P → Bool} {p : P} (h : ∀ q, q ≠ p → f q = g q) :
    ∀ {l : List P}, l.Nodup → l.countP f ≤ l.countP g + 1
  | [], _ => by simp
  | q :: l, hnodup => by
      obtain ⟨hq, hl⟩ := List.nodup_cons.mp hnodup
      rw [List.countP_cons, List.countP_cons]
      by_cases hqp : q = p
      · subst hqp
        have heq : l.countP f = l.countP g := List.countP_congr fun q' hq' => by
          rw [h q' fun h' => hq (h' ▸ hq')]
        rw [heq]
        split <;> omega
      · have hle := countP_le_succ h hl
        rw [h q hqp]
        omega

/-- Without a new pass the logins under way do not grow. -/
theorem awaiting_le (hpassed : passedCalls key c' = passedCalls key c)
    (hmay : ∀ q ∈ passedCalls key c, mayVerify c' q = true → mayVerify c q = true) :
    (tally key c').awaiting ≤ (tally key c).awaiting := by
  change (passedCalls key c').countP _ ≤ _
  rw [hpassed]
  exact List.countP_mono_left hmay

/-- Nothing is counted but what may have stopped to count. -/
theorem tally_other (hpassed : passedCalls key c' = passedCalls key c)
    (hfailed : failedVerifications key c' = failedVerifications key c)
    (hmay : ∀ q ∈ passedCalls key c, mayVerify c' q = true → mayVerify c q = true)
    (hun : ∀ q ∈ passedCalls key c, uncounted c q = true → uncounted c' q = true)
    (hn : AuthState.attempts key c'.state = AuthState.attempts key c.state) :
    (tally key c).Step settings.loginMaxAttempts (tally key c') := by
  refine .other hfailed (awaiting_le hpassed hmay) ?_ hn
  change _ ≤ (passedCalls key c').countP _
  rw [hpassed]
  exact List.countP_mono_left hun

/-- A running call may verify exactly when it has passed the check and not gone on. -/
theorem mayVerify_eq {p : P} {call : AuthCall} {rest : AuthSession (Option TokenPair)}
    (hp : c.procs p = some ⟨call, some rest⟩) : mayVerify c p =
      (call.meetsPolicy policy && decide (loginStage settings (c.events p) = .passed)) := by
  unfold mayVerify
  rw [hp]

/-- What a call does to the counts for a key that is not its own: nothing. -/
theorem OrderlyCalls.not_passed_of_ne (hc : OrderlyCalls c) {p : P} {call : AuthCall}
    {rest : AuthSession (Option TokenPair)} (hp : c.procs p = some ⟨call, some rest⟩)
    (hne : call.attemptsKey lower ≠ some key) : p ∉ passedCalls key c := fun hmem =>
  hne ((hc.here hp).checked key (Orderly.checked_of_passedCheck (mem_passedCalls.mp hmem)))

section

variable {p : P} {e : Sigma AuthCmd.Resp} {call : AuthCall}
  {rest rest' : AuthSession (Option TokenPair)} {s : AuthState}

/-- One more command may add a failed verification for its key. -/
theorem failedVerifications_act (hp : c.callOf p = some call) :
    failedVerifications key (c.advance (.act p e) p ⟨call, some rest⟩ s) =
      (if verified e = some false ∧ call.attemptsKey lower = some key then 1 else 0) +
        failedVerifications key c := by
  have hproc : c.callOf p = some (⟨call, some rest⟩ : Proc (authSystem settings lower policy)).call :=
    hp
  have hkey : ∀ q, callKey (c.advance (.act p e) p ⟨call, some rest⟩ s) q = callKey c q :=
    fun q => congrArg (Option.bind · _) (callOf_advance hproc q)
  have hown : callKey c p = call.attemptsKey lower := by
    unfold callKey
    rw [hp, Option.bind_some]
  unfold failedVerifications
  rw [occurrences_act, List.countP_append]
  simp only [hkey]
  congr 1
  rcases verified e with _ | valid
  · simp
  · cases valid <;> simp [hown]

/-- Other calls may verify as before. -/
theorem mayVerify_of_ne {q : P} (hqp : q ≠ p) :
    mayVerify (c.advance (.act p e) p ⟨call, some rest⟩ s) q = mayVerify c q := by
  have hsame : ∀ p' e', (Move.act p e : Move (authSystem settings lower policy) P) = .act p' e' →
      p' = p := fun _ _ hm => by cases hm; rfl
  exact mayVerify_congr (advance_of_ne hqp hsame).1 (advance_of_ne hqp hsame).2

/-- Their failures are counted as before. -/
theorem uncounted_of_ne {q : P} (hqp : q ≠ p) :
    uncounted (c.advance (.act p e) p ⟨call, some rest⟩ s) q = uncounted c q :=
  uncounted_congr (advance_of_ne hqp fun _ _ hm => by cases hm; rfl).2

/-- After its command the call may verify if that has let it pass. -/
theorem mayVerify_act : mayVerify (c.advance (.act p e) p ⟨call, some rest⟩ s) p =
    (call.meetsPolicy policy &&
      decide ((loginStage settings (c.events p)).next settings e = .passed)) := by
  rw [mayVerify_eq (Function.update_self ..), events_act]
  rfl

/-- Its failure is uncounted if that command has verified a wrong password. -/
theorem uncounted_act : uncounted (c.advance (.act p e) p ⟨call, some rest⟩ s) p =
    decide ((loginStage settings (c.events p)).next settings e = .failed) := by
  unfold uncounted
  rw [events_act]
  rfl

/-- A command does not give a call its verification back. -/
theorem mayVerify_of_act (hp : c.procs p = some ⟨call, some rest'⟩)
    (hmay : (loginStage settings (c.events p)).next settings e = .passed →
      loginStage settings (c.events p) = .passed) {q : P}
    (hq : mayVerify (c.advance (.act p e) p ⟨call, some rest⟩ s) q = true) :
    mayVerify c q = true := by
  by_cases hqp : q = p
  · subst hqp
    rw [mayVerify_act, Bool.and_eq_true, decide_eq_true_eq] at hq
    rw [mayVerify_eq hp, Bool.and_eq_true, decide_eq_true_eq]
    exact ⟨hq.1, hmay hq.2⟩
  · rwa [mayVerify_of_ne hqp] at hq

/-- A command that neither passes the check nor verifies a password. -/
theorem tally_act_other (hp : c.procs p = some ⟨call, some rest'⟩)
    (hpassed : passedCheck settings key e = none) (hverified : verified e ≠ some false)
    (hmay : (loginStage settings (c.events p)).next settings e = .passed →
      loginStage settings (c.events p) = .passed)
    (hun : p ∈ passedCalls key c → loginStage settings (c.events p) = .failed →
      (loginStage settings (c.events p)).next settings e = .failed)
    (hn : s.attempts key = AuthState.attempts key c.state) :
    (tally key c).Step settings.loginMaxAttempts
      (tally key (c.advance (.act p e) p ⟨call, some rest⟩ s)) := by
  refine tally_other ?_ ?_ (fun q _ hq => mayVerify_of_act hp hmay hq) (fun q hmem hq => ?_) hn
  · rw [passedCalls_act, hpassed]
    rfl
  · rw [failedVerifications_act (congrArg (Option.map Proc.call) hp), if_neg fun h => hverified h.1,
      Nat.zero_add]
  · by_cases hqp : q = p
    · subst hqp
      rw [uncounted_act, decide_eq_true_eq]
      exact hun hmem (of_decide_eq_true hq)
    · rwa [uncounted_of_ne hqp]

/-- The counter is read. -/
theorem tally_get (hc : OrderlyCalls c) (hp : c.procs p = some ⟨call, some rest'⟩)
    {key' : String} {value : Option RedisValue}
    (hstage : loginStage settings (c.events p) = .start)
    (hfresh : lockCheckFresh key c (.act p ⟨.get key', value⟩) = true) :
    (tally key c).Step settings.loginMaxAttempts
      (tally key (c.advance (.act p ⟨.get key', value⟩) p ⟨call, some rest⟩ c.state)) := by
  have hnew : p ∉ passedCalls key c := hc.not_passed hp hstage
  by_cases hpass : key' = key ∧ letsPass settings value = true
  · obtain ⟨rfl, hvalue⟩ := hpass
    set c' := c.advance (.act p ⟨.get key', value⟩) p ⟨call, some rest⟩ c.state
    have hcalls : passedCalls key' c' = p :: passedCalls key' c := by
      rw [passedCalls_act]
      change (Option.map _ (if _ then _ else _)).toList ++ _ = _
      rw [if_pos ⟨rfl, hvalue⟩]
      rfl
    have hfailed : failedVerifications key' c' = failedVerifications key' c := by
      rw [failedVerifications_act (congrArg (Option.map Proc.call) hp), if_neg fun h => nomatch h.1]
      exact Nat.zero_add _
    have hne : ∀ q ∈ passedCalls key' c, q ≠ p := fun q hq => ne_of_mem_of_not_mem hq hnew
    have hawaiting : (passedCalls key' c).countP (mayVerify c') = (tally key' c).awaiting :=
      List.countP_congr fun q hq => by rw [mayVerify_of_ne (hne q hq)]
    have huncounted : (passedCalls key' c).countP (uncounted c') = (tally key' c).uncounted :=
      List.countP_congr fun q hq => by rw [uncounted_of_ne (hne q hq)]
    have ha : (tally key' c').awaiting =
        (tally key' c).awaiting + if mayVerify c' p = true then 1 else 0 := by
      change (passedCalls key' c').countP _ = _
      rw [hcalls, List.countP_cons, hawaiting]
    have hu : (tally key' c).uncounted ≤ (tally key' c').uncounted := by
      change _ ≤ (passedCalls key' c').countP _
      rw [hcalls, List.countP_cons, huncounted]
      exact Nat.le_add_right _ _
    by_cases hpolicy : call.meetsPolicy policy = true
    · -- The check was fresh, so that there is room for one more.
      refine .pass ?_ hfailed ?_ hu rfl
      · have hany : (c.callOf p).any (AuthCall.meetsPolicy policy) = true := by
          rw [callOf, hp]
          exact hpolicy
        simpa [lockCheckFresh, hvalue, hany] using hfresh
      · rw [ha]
        split <;> omega
    · refine .other hfailed ?_ hu rfl
      rw [ha, if_neg, Nat.add_zero]
      rw [mayVerify_act, Bool.and_eq_true]
      exact fun h => hpolicy h.1
  · refine tally_other ?_ ?_ (fun q hq hmay => ?_) (fun q hq hun => ?_) rfl
    · rw [passedCalls_act]
      change (Option.map _ (if _ then _ else _)).toList ++ _ = _
      rw [if_neg hpass]
      rfl
    · rw [failedVerifications_act (congrArg (Option.map Proc.call) hp), if_neg fun h => nomatch h.1]
      exact Nat.zero_add _
    · rwa [mayVerify_of_ne (ne_of_mem_of_not_mem hq hnew)] at hmay
    · rwa [uncounted_of_ne (ne_of_mem_of_not_mem hq hnew)]

/-- A password is verified. -/
theorem tally_verify (hc : OrderlyCalls c) (hp : c.procs p = some ⟨call, some rest'⟩)
    {password passwordHash : String} {valid : Bool}
    (hstage : loginStage settings (c.events p) = .passed) (hpolicy : call.meetsPolicy policy = true)
    (hs : s = c.state) :
    (tally key c).Step settings.loginMaxAttempts
      (tally key (c.advance (.act p ⟨.verify password passwordHash, valid⟩) p ⟨call, some rest⟩ s)) := by
  subst hs
  cases valid with
  | true =>
    refine tally_act_other hp rfl (by simp [verified]) (fun h => nomatch h) (fun _ h => ?_) rfl
    exact nomatch hstage.symm.trans h
  | false =>
    obtain ⟨key', hkey', hne⟩ := (hc.here hp).passed (.inl hstage)
    set c' := c.advance (.act p ⟨.verify password passwordHash, false⟩) p ⟨call, some rest⟩ c.state
    have hcalls : passedCalls key c' = passedCalls key c := passedCalls_act
    have hfailed : failedVerifications key c' =
        (if verified ⟨.verify password passwordHash, false⟩ = some false ∧
          call.attemptsKey lower = some key then 1 else 0) + failedVerifications key c :=
      failedVerifications_act (congrArg (Option.map Proc.call) hp)
    by_cases hkey : key' = key
    · subst hkey
      have hmem : p ∈ passedCalls key' c := mem_passedCalls.mpr hne
      refine .fail (hfailed.trans ?_) ?_ ?_ rfl
      · rw [if_pos ⟨rfl, hkey'⟩, Nat.add_comm]
        rfl
      · change (passedCalls key' c').countP _ + 1 ≤ _
        rw [hcalls]
        refine countP_succ_le hmem ?_ ?_ fun q hqp => mayVerify_of_ne hqp
        · rw [mayVerify_act]
          exact Bool.and_false _
        · rw [mayVerify_eq hp, hpolicy, hstage]
          rfl
      · change _ ≤ (passedCalls key' c').countP _
        rw [hcalls]
        refine countP_succ_le hmem ?_ ?_ fun q hqp => (uncounted_of_ne hqp).symm
        · rw [uncounted, hstage]
          rfl
        · rw [uncounted_act]
          rfl
    · have hnot : p ∉ passedCalls key c := hc.not_passed_of_ne hp
        fun h => hkey (Option.some.inj (hkey'.symm.trans h))
      refine tally_other hcalls (hfailed.trans ?_) (fun q hq hmay => ?_) (fun q hq hun => ?_) rfl
      · rw [if_neg fun h => hkey (Option.some.inj (hkey'.symm.trans h.2)), Nat.zero_add]
      · rwa [mayVerify_of_ne (ne_of_mem_of_not_mem hq hnot)] at hmay
      · rwa [uncounted_of_ne (ne_of_mem_of_not_mem hq hnot)]

/-- A failure is counted. -/
theorem tally_incrExpire (hc : OrderlyCalls c) (hnodup : (passedCalls key c).Nodup)
    (hp : c.procs p = some ⟨call, some rest'⟩) {key' : String} {seconds : ℤ}
    (hkey' : call.attemptsKey lower = some key')
    (hs : AuthCmd.respond (.incrExpire key' seconds) () c.state = some s) :
    (tally key c).Step settings.loginMaxAttempts
      (tally key (c.advance (.act p ⟨.incrExpire key' seconds, ()⟩) p ⟨call, some rest⟩ s)) := by
  by_cases hkey : key' = key
  · subst hkey
    have hcalls : passedCalls key'
        (c.advance (.act p ⟨.incrExpire key' seconds, ()⟩) p ⟨call, some rest⟩ s) =
        passedCalls key' c := passedCalls_act
    refine .count ?_ ?_ ?_ ?_
    · exact (failedVerifications_act (congrArg (Option.map Proc.call) hp)).trans
        (by rw [if_neg fun h => nomatch h.1]; exact Nat.zero_add _)
    · change List.countP _ _ ≤ _
      rw [hcalls]
      refine List.countP_mono_left fun q _ hq => ?_
      by_cases hqp : q = p
      · subst hqp
        rw [mayVerify_act, Bool.and_eq_true] at hq
        exact nomatch of_decide_eq_true hq.2
      · rwa [mayVerify_of_ne hqp] at hq
    · change _ ≤ List.countP _ _ + 1
      rw [hcalls]
      exact countP_le_succ (fun q hqp => (uncounted_of_ne hqp).symm) hnodup
    · change AuthState.attempts key' s = AuthState.attempts key' c.state + 1
      rcases AuthCmd.respond_incrExpire seconds hs with ⟨hnone, rfl⟩ | ⟨n, hsome, rfl⟩
      · simp only [AuthState.attempts, AuthState.put_redis, Function.update_self, hnone]
        rfl
      · simp only [AuthState.attempts, AuthState.put_redis, Function.update_self, hsome]
  · refine tally_act_other hp rfl (fun h => nomatch h) (fun h => nomatch h) (fun hmem _ => ?_) ?_
    · exact absurd hmem (hc.not_passed_of_ne hp fun h => hkey (Option.some.inj (hkey'.symm.trans h)))
    · rcases AuthCmd.respond_incrExpire seconds hs with ⟨-, rfl⟩ | ⟨n, -, rfl⟩ <;>
        exact AuthState.attempts_put_of_ne (Ne.symm hkey) _ c.state

/-- A counter is deleted. -/
theorem tally_del (hp : c.procs p = some ⟨call, some rest'⟩) (key' : String)
    {r : AuthCmd.Resp (.del key')} :
    (tally key c).Step settings.loginMaxAttempts
        (tally key (c.advance (.act p ⟨.del key', r⟩) p ⟨call, some rest⟩ (c.state.put key' none))) ∨
      keepsCounter key (.act p ⟨.del key', r⟩ : Move (authSystem settings lower policy) P) = false ∧
        (tally key c).Forgets
          (tally key (c.advance (.act p ⟨.del key', r⟩) p ⟨call, some rest⟩
            (c.state.put key' none))) := by
  by_cases hk : key' = key
  · subst hk
    refine .inr ⟨decide_eq_false (not_not_intro rfl),
      awaiting_le passedCalls_act fun q _ hq => mayVerify_of_act hp id hq, ?_⟩
    exact AuthState.attempts_put_none key' c.state
  · exact .inl (tally_act_other hp rfl (fun h => nomatch h) id (fun _ => id)
      (AuthState.attempts_put_of_ne (Ne.symm hk) none c.state))

end

/-- A call begins. -/
theorem tally_start (hc : OrderlyCalls c) {p : P} {call : AuthCall} {s : AuthState}
    (hp : c.procs p = none) (hs : call.begin c.state = some s) :
    (tally key c).Step settings.loginMaxAttempts
      (tally key (c.advance (.start p call) p ⟨call, some (call.program settings lower policy)⟩ s)) := by
  have hnone : ∀ {β : Type} (f : Sigma AuthCmd.Resp → Option β) x, (p, x) ∉ c.occurrences f := by
    intro β f x hmem
    rw [mem_occurrences, hc.events_nil hp] at hmem
    exact absurd hmem List.not_mem_nil
  have hother : ∀ q, q ≠ p → (c.advance (.start p call) p ⟨call, some (call.program settings lower
      policy)⟩ s).procs q = c.procs q := fun q hqp => Function.update_of_ne hqp _ _
  refine tally_other rfl ?_ (fun q hq hmay => ?_) (fun q _ hun => hun) ?_
  · refine List.countP_congr fun ⟨q, valid⟩ hmem => ?_
    have hqp : q ≠ p := fun hqp => hnone verified valid (hqp ▸ hmem)
    have hkeyq : callKey (c.advance (.start p call) p ⟨call, some (call.program settings lower
        policy)⟩ s) q = callKey c q := by
      unfold callKey callOf
      rw [hother q hqp]
    rw [hkeyq]
  · have hqp : q ≠ p := by
      rintro rfl
      rw [mem_passedCalls, hc.events_nil hp] at hq
      exact hq rfl
    rwa [mayVerify_congr (hother q hqp) rfl] at hmay
  · have hredis : s.redis = c.state.redis := (AuthCall.begin_spec hs).1
    simp only [AuthState.attempts, advance, hredis]

/-- A call is killed. -/
theorem tally_stop {p : P} {proc : Proc (authSystem settings lower policy)}
    (hp : c.procs p = some proc) :
    (tally key c).Step settings.loginMaxAttempts
      (tally key (c.advance (.stop p) p ⟨proc.call, none⟩ c.state)) := by
  have hcall : c.callOf p = some (⟨proc.call, none⟩ : Proc (authSystem settings lower policy)).call :=
    congrArg (Option.map Proc.call) hp
  refine tally_other rfl ?_ (fun q _ hmay => ?_) (fun q _ hun => hun) rfl
  · refine List.countP_congr fun ⟨q, valid⟩ _ => ?_
    have hkeyq : callKey (c.advance (.stop p) p ⟨proc.call, none⟩ c.state) q = callKey c q :=
      congrArg (Option.bind · _) (callOf_advance hcall q)
    rw [hkeyq]
  · by_cases hqp : q = p
    · subst hqp
      simp only [mayVerify, advance, Function.update_self] at hmay
      cases hmay
    · have hsame : mayVerify (c.advance (.stop p) p ⟨proc.call, none⟩ c.state) q = mayVerify c q :=
        mayVerify_congr (Function.update_of_ne hqp _ _) rfl
      rwa [hsame] at hmay

/-- **What a move does to the counts.** -/
theorem tally_move (hc : OrderlyCalls c) (hc' : OrderlyCalls c') (hnodup : (passedCalls key c).Nodup)
    (hkey : ∀ jti, key ≠ tokenKey jti) {m : Move (authSystem settings lower policy) P}
    (hfresh : lockCheckFresh key c m = true) (hm : c.move m = some c') :
    (tally key c).Step settings.loginMaxAttempts (tally key c') ∨
      keepsCounter key m = false ∧ (tally key c).Forgets (tally key c') := by
  cases m with
  | start p call =>
    obtain ⟨hp, s, hs, rfl⟩ := move_start hm
    exact .inl (tally_start hc hp hs)
  | act p e =>
    obtain ⟨call, next, s, hp, hs, rfl⟩ := move_act hm
    obtain ⟨cmd, r⟩ := e
    have hallowed := ((hc.rest hp).2 r).here.1
    cases cmd with
    | get key' =>
      obtain ⟨-, rfl⟩ := AuthCmd.respond_get hs
      exact .inl (tally_get hc hp hallowed.1 hfresh)
    | getByEmail email =>
      cases hs
      refine .inl (tally_act_other hp rfl (fun h => nomatch h) (fun _ => hallowed) (fun _ h => ?_) rfl)
      exact nomatch hallowed.symm.trans h
    | verify password passwordHash =>
      cases hs
      exact .inl (tally_verify hc hp hallowed.1 hallowed.2 rfl)
    | incrExpire key' seconds => exact .inl (tally_incrExpire hc hnodup hp hallowed hs)
    | del key' =>
      obtain ⟨-, rfl⟩ := AuthCmd.respond_del hs
      exact tally_del hp key'
    | set key' userId seconds =>
      cases hs
      obtain ⟨jti, rfl⟩ := hallowed
      exact .inl (tally_act_other hp rfl (fun h => nomatch h) id (fun _ => id)
        (AuthState.attempts_put_of_ne (hkey jti) _ c.state))
    | uuid4 =>
      obtain ⟨-, rfl⟩ := AuthCmd.respond_uuid4 hs
      exact .inl (tally_act_other hp rfl (fun h => nomatch h) id (fun _ => id) rfl)
    | ttl key' | getById userId | hash password =>
      cases hs
      exact .inl (tally_act_other hp rfl (fun h => nomatch h) id (fun _ => id) rfl)
  | stop p =>
    obtain ⟨proc, hp, rfl⟩ := move_stop hm
    exact .inl (tally_stop hp)
  | env key' =>
    obtain ⟨s, hs, rfl⟩ := move_env hm
    cases hs
    by_cases hk : key' = key
    · subst hk
      exact .inr ⟨decide_eq_false (not_not_intro rfl), le_rfl,
        AuthState.attempts_put_none key' c.state⟩
    · exact .inl (tally_other rfl rfl (fun q _ hmay => hmay) (fun q _ hun => hun)
        (AuthState.attempts_put_of_ne (Ne.symm hk) none c.state))

/-! ## Runs -/

/-- In a period the checks are fresh, and the counter stays. -/
def inPeriod (key : String) (c : AuthConfig settings lower policy P)
    (m : Move (authSystem settings lower policy) P) : Bool :=
  lockCheckFresh key c m && keepsCounter key m

/-- In runs with fresh checks the tally is bounded. -/
theorem tally_bounded (hkey : ∀ jti, key ≠ tokenKey jti)
    (h : (AuthConfig.start settings lower policy P).ReachesIf (lockCheckFresh key) c) :
    (tally key c).Bounded settings.loginMaxAttempts := by
  induction h with
  | refl => exact ⟨Int.le_max_left .., Int.le_refl 0⟩
  | tail hreach hstep ih =>
    obtain ⟨m, hfresh, hm⟩ := hstep
    have hb := ReachesIf.reaches hreach
    have hc := hb.along (orderly_program settings lower policy)
    have hc' := hc.move (orderly_program settings lower policy) hm
    rcases tally_move hc hc' (passedCalls_nodup hb) hkey hfresh hm with hstep | ⟨-, hforgets⟩
    · exact ih.step hstep
    · exact ih.forgets hforgets

/-- Where a period goes on, the counts make steps. -/
theorem tally_period (hkey : ∀ jti, key ≠ tokenKey jti)
    (h₀ : (AuthConfig.start settings lower policy P).Reaches c) {m}
    (hperiod : inPeriod key c m = true) (hm : c.move m = some c') :
    (tally key c).Step settings.loginMaxAttempts (tally key c') := by
  obtain ⟨hfresh, hkeeps⟩ := Bool.and_eq_true_iff.mp hperiod
  have hc := h₀.along (orderly_program settings lower policy)
  have hc' := hc.move (orderly_program settings lower policy) hm
  rcases tally_move hc hc' (passedCalls_nodup h₀) hkey hfresh hm with hstep | ⟨hnot, -⟩
  · exact hstep
  · exact nomatch hkeeps.symm.trans hnot

/-- In a period it stays safe, and no failure is taken back. -/
theorem tally_safe (hkey : ∀ jti, key ≠ tokenKey jti) {n : ℕ}
    (h₀ : (AuthConfig.start settings lower policy P).Reaches c)
    (h : c.ReachesIf (inPeriod key) c') (hsafe : (tally key c).Safe settings.loginMaxAttempts n) :
    (tally key c').Safe settings.loginMaxAttempts n ∧
      (tally key c).failures ≤ (tally key c').failures := by
  induction h with
  | refl => exact ⟨hsafe, le_rfl⟩
  | tail hreach hstep ih =>
    obtain ⟨m, hperiod, hm⟩ := hstep
    have hstep := tally_period hkey (h₀.trans (ReachesIf.reaches hreach)) hperiod hm
    exact ⟨ih.1.step hstep, ih.2.trans hstep.failures_le⟩

/-- A login that has verified nothing, and will not unless it passes the check. -/
def NotVerifying (key : String) (c : AuthConfig settings lower policy P) (q : P) : Prop :=
  ∀ call, c.callOf q = some call → AuthCall.attemptsKey lower call = some key →
    (c.events q).filterMap verified = [] ∧
      (loginStage settings (c.events q) = .passed → AuthCall.meetsPolicy policy call = false)

/-- While the limit is reached no further login passes the check. -/
theorem NotVerifying.move (hc : OrderlyCalls c) {q : P} (h : NotVerifying key c q)
    (hfull : settings.loginMaxAttempts ≤ (tally key c).attempts + (tally key c).uncounted)
    {m : Move (authSystem settings lower policy) P} (hfresh : lockCheckFresh key c m = true)
    (hm : c.move m = some c') : NotVerifying key c' q := by
  intro call' hq' hkey
  cases m with
  | start p call =>
    obtain ⟨hp, s, -, rfl⟩ := move_start hm
    by_cases hqp : q = p
    · subst hqp
      change (c.events q).filterMap verified = [] ∧ (loginStage settings (c.events q) = .passed → _)
      rw [hc.events_nil hp]
      exact ⟨rfl, fun h => nomatch h⟩
    · exact h call' ((congrArg (Option.map Proc.call) (Function.update_of_ne hqp _ _)).symm.trans hq')
        hkey
  | act p e =>
    obtain ⟨call, next, s, hp, -, rfl⟩ := move_act hm
    have hcall : c.callOf p = some (⟨call, some (next e.2)⟩ : Proc _).call :=
      congrArg (Option.map Proc.call) hp
    have hbefore : c.callOf q = some call' := (callOf_advance hcall q).symm.trans hq'
    obtain ⟨hnil, hpassed⟩ := h call' hbefore hkey
    by_cases hqp : q = p
    · subst hqp
      obtain rfl := Option.some.inj (hcall.symm.trans hbefore)
      rw [events_act]
      have hallowed := ((hc.rest hp).2 e.2).here.1
      obtain ⟨cmd, r⟩ := e
      cases cmd with
      | get key' =>
        refine ⟨hnil, fun hstage => ?_⟩
        obtain rfl : key' = key := Option.some.inj (hallowed.2.symm.trans hkey)
        by_contra hpolicy
        have hany : (c.callOf q).any (AuthCall.meetsPolicy policy) = true := by
          rw [hbefore]
          exact Bool.not_eq_false _ ▸ hpolicy
        have hvalue : letsPass settings r = true := by
          by_contra hnot
          change (if letsPass settings r = true then _ else _) = _ at hstage
          rw [if_neg hnot] at hstage
          cases hstage
        have hroom : (tally key' c).attempts + (tally key' c).awaiting + (tally key' c).uncounted <
            settings.loginMaxAttempts := by
          simpa [lockCheckFresh, hvalue, hany] using hfresh
        omega
      | getByEmail email => exact ⟨hnil, fun _ => hpassed hallowed⟩
      | verify password passwordHash =>
        exact nomatch hallowed.2.symm.trans (hpassed hallowed.1)
      | incrExpire key' seconds => exact ⟨hnil, fun h => nomatch h⟩
      | _ => exact ⟨hnil, hpassed⟩
    · rw [(advance_of_ne hqp fun _ _ hm => by cases hm; rfl).2]
      exact ⟨hnil, hpassed⟩
  | stop p =>
    obtain ⟨proc, hp, rfl⟩ := move_stop hm
    have hcall : c.callOf p = some (⟨proc.call, none⟩ : Proc _).call :=
      congrArg (Option.map Proc.call) hp
    exact h call' ((callOf_advance hcall q).symm.trans hq') hkey
  | env e =>
    obtain ⟨s, -, rfl⟩ := move_env hm
    exact h call' hq' hkey

/-- The call has not verified a password, and returns no tokens. -/
def Refused (c : AuthConfig settings lower policy P) (q : P) : Prop :=
  (c.events q).filterMap verified = [] ∧
    ∀ proc r, c.procs q = some proc → proc.result = some r → ∃ e, r = .error e

/-- A login that may not verify any more is refused. -/
theorem NotVerifying.refused (hc : OrderlyCalls c) {q : P} (h : NotVerifying key c q)
    {call : AuthCall} (hq : c.callOf q = some call) (hkey : call.attemptsKey lower = some key) :
    Refused c q := by
  obtain ⟨hnil, -⟩ := h call hq hkey
  refine ⟨hnil, fun proc r hproc hr => ?_⟩
  cases r with
  | error e => exact ⟨e, rfl⟩
  | ok a =>
    have hcall : proc.call = call := Option.some.inj ((congrArg _ hproc).symm.trans hq)
    have htrue := hc.ended hproc hr a key rfl (hcall ▸ hkey)
    rw [hnil] at htrue
    exact absurd htrue List.not_mem_nil

end

/-! ## The limit -/

/-- **Failed logins are limited**, as long as every check that lets a call pass finds the failures
counted and the calls under way together below the limit: while the counter is neither removed nor
expires at most as many verifications fail, and once that many have, any further login is refused
without one. -/
theorem login_lockout {settings : AuthSettings} {lower : Text → Text} {policy : PasswordPolicy}
    {P : Type} [DecidableEq P] (email : String) (clientIp : Option String)
    {c₀ c : AuthConfig settings lower policy P}
    (h₀ : (AuthConfig.start settings lower policy P).ReachesIf
      (lockCheckFresh (attemptsKey lower email clientIp)) c₀)
    (h : c₀.ReachesIf (inPeriod (attemptsKey lower email clientIp)) c) :
    (failedVerifications (attemptsKey lower email clientIp) c : ℤ) ≤
        failedVerifications (attemptsKey lower email clientIp) c₀ + max 0 settings.loginMaxAttempts ∧
      ((failedVerifications (attemptsKey lower email clientIp) c : ℤ) =
          failedVerifications (attemptsKey lower email clientIp) c₀ +
            max 0 settings.loginMaxAttempts →
        ∀ c' q call, c.ReachesIf (inPeriod (attemptsKey lower email clientIp)) c' →
          (c.events q).filterMap checkedKey = [] → c'.callOf q = some call →
          AuthCall.attemptsKey lower call = some (attemptsKey lower email clientIp) → Refused c' q) := by
  set key := attemptsKey lower email clientIp
  have hkey : ∀ jti, key ≠ tokenKey jti := fun jti => attemptsKey_ne_tokenKey
  have hreach₀ := h₀.reaches
  have hreach : (AuthConfig.start settings lower policy P).Reaches c := hreach₀.trans h.reaches
  have hsafe := (tally_safe hkey hreach₀ h (tally_bounded hkey h₀).safe).1
  refine ⟨?_, fun hfull c' q call hc' hunchecked hq hcall => ?_⟩
  · have := hsafe.1
    change ((tally key c).failures : ℤ) ≤ (tally key c₀).failures + _
    omega
  · have hnot : NotVerifying key c' q := by
      clear hq hcall
      induction hc' with
      | refl =>
        have hc := hreach.along (orderly_program settings lower policy)
        intro call hq _
        obtain ⟨proc, hproc, rfl⟩ := Option.map_eq_some_iff.mp hq
        have horderly := hc.here hproc
        refine ⟨horderly.checked_of_verified hunchecked, fun hstage => ?_⟩
        obtain ⟨key', -, hne⟩ := horderly.passed (.inl hstage)
        exact absurd (Orderly.checked_of_passedCheck hne)
          (List.eq_nil_iff_forall_not_mem.mp hunchecked key')
      | tail hc' hstep ih =>
        obtain ⟨m, hperiod, hm⟩ := hstep
        have hreach' : (AuthConfig.start settings lower policy P).Reaches _ :=
          hreach.trans (ReachesIf.reaches hc')
        obtain ⟨hsafe', hle⟩ := tally_safe hkey hreach hc' hsafe
        refine ih.move (hreach'.along (orderly_program settings lower policy)) ?_
          (Bool.and_eq_true_iff.mp hperiod).1 hm
        have hmore : ((tally key c).failures : ℤ) = (tally key c₀).failures + _ := hfull
        have := hsafe'.2
        omega
    have hreach' : (AuthConfig.start settings lower policy P).Reaches c' := hreach.trans hc'.reaches
    exact hnot.refused (hreach'.along (orderly_program settings lower policy)) hq hcall

/-! ## Logins that guess at once -/

/-- The limit of the samples. -/
def oneAttempt : AuthSettings := { loginMaxAttempts := 1 }

/-- The calls of the authentication with the limit. -/
abbrev oneAttemptStart : AuthConfig oneAttempt id {} ℕ := AuthConfig.start _ _ _ _

/-- The key of the counter for which all log in. -/
def sampleKey : String := attemptsKey id "user@example.org" none

/-- A login is checked, when the counter has the value. -/
def guessChecked (p : ℕ) (value : Option RedisValue) : List (Move (authSystem oneAttempt id {}) ℕ) :=
  [.start p (.authenticate "user@example.org" "password" none), .act p ⟨.get sampleKey, value⟩]

/-- Its password is wrong. -/
def guessFailed (p : ℕ) : List (Move (authSystem oneAttempt id {}) ℕ) :=
  [.act p ⟨.getByEmail "user@example.org", some (⟨(1, 0), "user", "hash"⟩ : User)⟩,
    .act p ⟨.verify "password" "hash", false⟩, .act p ⟨.incrExpire sampleKey 300, ()⟩]

/-- One failure with a limit of one, and a second login in the same period. -/
theorem refused_run : ∃ c c', oneAttemptStart.ReachesIf (inPeriod sampleKey) c ∧
    c.ReachesIf (inPeriod sampleKey) c' ∧ failedVerifications sampleKey c = 1 ∧
    (c.events 1).filterMap checkedKey = [] ∧
    c'.callOf 1 = some (AuthCall.authenticate "user@example.org" "password" none) := by
  have hrun : (playIf (inPeriod sampleKey) (guessChecked 0 none ++ guessFailed 0)
      oneAttemptStart).any (fun c => decide (failedVerifications sampleKey c = 1) &&
        decide ((c.events 1).filterMap checkedKey = []) &&
        (playIf (inPeriod sampleKey) (guessChecked 1 (some (.counter 1)) ++
          [.act 1 ⟨.ttl sampleKey, (300 : ℤ)⟩]) c).any fun c' =>
            c'.performs 1 (AuthCall.authenticate "user@example.org" "password" none)) = true := by
    decide +kernel
  obtain ⟨c, hc, hprops⟩ := (Option.any_eq_true _ _).mp hrun
  simp only [Bool.and_eq_true, decide_eq_true_eq] at hprops
  obtain ⟨⟨hfailed, hunchecked⟩, hafter⟩ := hprops
  obtain ⟨c', hc', hcall⟩ := (Option.any_eq_true _ _).mp hafter
  exact ⟨c, c', reachesIf_of_playIf hc, reachesIf_of_playIf hc', hfailed, hunchecked,
    (performs_iff (S := authSystem oneAttempt id {})).mp hcall⟩

/-- The one attempt fails, and the next login is refused. -/
theorem login_refused_in_run : ∃ c c', oneAttemptStart.ReachesIf (inPeriod sampleKey) c ∧
    c.ReachesIf (inPeriod sampleKey) c' ∧ (failedVerifications sampleKey c : ℤ) ≤ 1 ∧
    Refused c' 1 := by
  obtain ⟨c, c', hc, hc', hfailed, hunchecked, hcall⟩ := refused_run
  have hlockout := login_lockout "user@example.org" none
    (.refl : oneAttemptStart.ReachesIf (lockCheckFresh sampleKey) oneAttemptStart) hc
  exact ⟨c, c', hc, hc', hlockout.1,
    hlockout.2 (congrArg Nat.cast hfailed) c' 1 _ hc' hunchecked hcall rfl⟩

/-- Three logins are checked before one of them has counted its failure. -/
theorem failures_run : ∃ c₀ c, oneAttemptStart.Reaches c₀ ∧
    c₀.state.redis sampleKey = some (.counter 1) ∧
    c₀.ReachesIf (fun _ => keepsCounter sampleKey) c ∧
    failedVerifications sampleKey c = failedVerifications sampleKey c₀ + 2 := by
  have hrun : (play (guessChecked 0 none ++ guessChecked 1 none ++ guessChecked 2 none ++
      guessFailed 0) oneAttemptStart).any (fun c₀ =>
        decide (c₀.state.redis sampleKey = some (.counter 1)) &&
        (playIf (fun _ => keepsCounter sampleKey) (guessFailed 1 ++ guessFailed 2) c₀).any fun c =>
          decide (failedVerifications sampleKey c = failedVerifications sampleKey c₀ + 2)) = true := by
    decide +kernel
  obtain ⟨c₀, hc₀, hprops⟩ := (Option.any_eq_true _ _).mp hrun
  simp only [Bool.and_eq_true, decide_eq_true_eq] at hprops
  obtain ⟨hcounter, hafter⟩ := hprops
  obtain ⟨c, hc, hfailed⟩ := (Option.any_eq_true _ _).mp hafter
  exact ⟨c₀, c, reaches_of_play hc₀, hcounter, reachesIf_of_playIf hc, of_decide_eq_true hfailed⟩

/-- Once the counter is there, more verifications fail than are allowed. -/
theorem more_failures_than_attempts :
    ¬ ∀ (settings : AuthSettings) (lower : Text → Text) (policy : PasswordPolicy) (email : String)
      (clientIp : Option String) (c₀ c : AuthConfig settings lower policy ℕ),
      (AuthConfig.start settings lower policy ℕ).Reaches c₀ →
      c₀.state.redis (attemptsKey lower email clientIp) = some (.counter 1) →
      c₀.ReachesIf (fun _ => keepsCounter (attemptsKey lower email clientIp)) c →
      (failedVerifications (attemptsKey lower email clientIp) c : ℤ) ≤
        failedVerifications (attemptsKey lower email clientIp) c₀ + max 0 settings.loginMaxAttempts := by
  intro h
  obtain ⟨c₀, c, hc₀, hcounter, hc, hfailed⟩ := failures_run
  have hle := h oneAttempt id {} "user@example.org" none c₀ c hc₀ hcounter hc
  change (failedVerifications sampleKey c : ℤ) ≤ failedVerifications sampleKey c₀ + 1 at hle
  omega

end SyncBack
