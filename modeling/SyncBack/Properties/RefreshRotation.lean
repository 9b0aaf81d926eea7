import SyncBack.Services.AuthService

/-!
# Refresh tokens are exchanged once

A `jti` is removed from Redis by one atomic `DEL`, which says whether the key was there, and saved
only right after it was drawn. So a `jti` is saved once, found by at most one `DEL`, and gone after
any `DEL` for good (`Rotation`).

* `refresh_rotation` — a `jti` is exchanged at most once, at most one `jti` of the chain of a login is
  stored, and after a logout only a call can still exchange the `jti` whose `DEL` came before that
  of the logout;
* `exchanged_after_logout` — a run in which one does.
-/

set_option linter.unusedSectionVars false

namespace SyncBack

open Effects Effects.Config

/-! ## What one call does -/

/-- The key that the command has set. -/
def savedKey : Sigma AuthCmd.Resp → Option String
  | ⟨.set key _ _, _⟩ => some key
  | _ => none

/-- The `jti` that the command has drawn. -/
def drawnJti : Sigma AuthCmd.Resp → Option String
  | ⟨.uuid4, (jti : String)⟩ => some jti
  | _ => none

/-- The key that the command was to remove, and how many there were. -/
def deletedKey : Sigma AuthCmd.Resp → Option (String × ℕ)
  | ⟨.del key, (n : ℕ)⟩ => some (key, n)
  | _ => none

/-- The key that the command has counted up. -/
def countedKey : Sigma AuthCmd.Resp → Option String
  | ⟨.incrExpire key _, _⟩ => some key
  | _ => none

/-- What the commands of a call have to do with tokens. -/
structure TokenFacts (call : AuthCall) (es : List (Sigma AuthCmd.Resp)) : Prop where
  saved_once : (es.filterMap savedKey).length ≤ 1
  saved_drawn : ∀ key ∈ es.filterMap savedKey, ∃ jti ∈ es.filterMap drawnJti, key = tokenKey jti
  saved_revoked : ∀ token jti, call = .refreshAccessToken token → call.jti = some jti →
    es.filterMap savedKey ≠ [] → ∃ n, 0 < n ∧ (tokenKey jti, n) ∈ es.filterMap deletedKey
  deleted : ∀ jti n, (tokenKey jti, n) ∈ es.filterMap deletedKey → call.jti = some jti
  counted : ∀ key ∈ es.filterMap countedKey, ∀ jti, key ≠ tokenKey jti

/-- A logout that ends has removed what it was given. -/
def LogoutFacts (call : AuthCall) (es : List (Sigma AuthCmd.Resp)) : Prop :=
  ∀ token jti, call = .logout token → call.jti = some jti →
    ∃ n, (tokenKey jti, n) ∈ es.filterMap deletedKey

namespace TokenFacts

variable {call : AuthCall} {es : List (Sigma AuthCmd.Resp)}

/-- Nothing was done yet. -/
theorem nil : TokenFacts call [] := by
  constructor <;> simp

/-- A call saves one key. -/
theorem saved_unique (h : TokenFacts call es) {key key' : String}
    (hkey : key ∈ es.filterMap savedKey) (hkey' : key' ∈ es.filterMap savedKey) : key = key' := by
  have honce := h.saved_once
  rcases hlist : es.filterMap savedKey with _ | ⟨x, _ | ⟨y, rest⟩⟩ <;>
    rw [hlist] at hkey hkey' honce
  · exact absurd hkey List.not_mem_nil
  · exact (List.mem_singleton.mp hkey).trans (List.mem_singleton.mp hkey').symm
  · exact absurd honce (by simp)

/-- A command that sets, removes and counts nothing. -/
theorem cons (h : TokenFacts call es) (e : Sigma AuthCmd.Resp)
    (hs : savedKey e = none) (hd : deletedKey e = none) (hc : countedKey e = none) :
    TokenFacts call (e :: es) where
  saved_once := by simpa only [List.filterMap_cons, hs] using h.saved_once
  saved_drawn key hkey := by
    rw [List.filterMap_cons_none hs] at hkey
    obtain ⟨jti, hjti, heq⟩ := h.saved_drawn key hkey
    refine ⟨jti, ?_, heq⟩
    rw [List.filterMap_cons]
    split
    · exact hjti
    · exact List.mem_cons_of_mem _ hjti
  saved_revoked := by simpa only [List.filterMap_cons, hs, hd] using h.saved_revoked
  deleted := by simpa only [List.filterMap_cons, hd] using h.deleted
  counted := by simpa only [List.filterMap_cons, hc] using h.counted

variable {lower : Text → Text} {email : String} {clientIp : Option String}

/-- Counting a failure changes nothing about tokens. -/
theorem cons_counted (h : TokenFacts call es) (seconds : ℤ) :
    TokenFacts call (⟨.incrExpire (attemptsKey lower email clientIp) seconds, ()⟩ :: es) where
  saved_once := h.saved_once
  saved_drawn := h.saved_drawn
  saved_revoked := h.saved_revoked
  deleted := h.deleted
  counted key hkey jti := by
    rcases List.mem_cons.mp hkey with rfl | hkey
    · exact attemptsKey_ne_tokenKey
    · exact h.counted key hkey jti

/-- Neither does forgetting the failures. -/
theorem cons_reset (h : TokenFacts call es) (n : ℕ) :
    TokenFacts call (⟨.del (attemptsKey lower email clientIp), n⟩ :: es) where
  saved_once := h.saved_once
  saved_drawn := h.saved_drawn
  saved_revoked token jti hcall hjti hne := by
    obtain ⟨m, hm, hmem⟩ := h.saved_revoked token jti hcall hjti hne
    exact ⟨m, hm, List.mem_cons_of_mem _ hmem⟩
  deleted jti m hmem := by
    rcases List.mem_cons.mp hmem with heq | hmem
    · exact absurd (Prod.mk.inj heq).1.symm attemptsKey_ne_tokenKey
    · exact h.deleted jti m hmem
  counted := h.counted

/-- A token may be deleted if it is the one of the call. -/
theorem cons_revoke (h : TokenFacts call es) {jti : String} (hjti : call.jti = some jti) (n : ℕ) :
    TokenFacts call (⟨.del (tokenKey jti), n⟩ :: es) where
  saved_once := h.saved_once
  saved_drawn := h.saved_drawn
  saved_revoked token jti hcall hjti hne := by
    obtain ⟨m, hm, hmem⟩ := h.saved_revoked token jti hcall hjti hne
    exact ⟨m, hm, List.mem_cons_of_mem _ hmem⟩
  deleted jti' m hmem := by
    rcases List.mem_cons.mp hmem with heq | hmem
    · exact tokenKey_injective (Prod.mk.inj heq).1 ▸ hjti
    · exact h.deleted jti' m hmem
  counted := h.counted

/-- A drawn token may be saved once, by a refresh after the old one was deleted. -/
theorem cons_saved (h : TokenFacts call es) (hnone : es.filterMap savedKey = []) {jti : String}
    (hdrawn : jti ∈ es.filterMap drawnJti) (hrevoked : ∀ token jti, call = .refreshAccessToken token →
      call.jti = some jti → ∃ n, 0 < n ∧ (tokenKey jti, n) ∈ es.filterMap deletedKey)
    (userId : Uuid) (seconds : ℤ) :
    TokenFacts call (⟨.set (tokenKey jti) userId seconds, ()⟩ :: es) where
  saved_once := by
    change (tokenKey jti :: es.filterMap savedKey).length ≤ 1
    rw [hnone]
    exact le_rfl
  saved_drawn key hkey := by
    change key ∈ tokenKey jti :: es.filterMap savedKey at hkey
    rw [hnone, List.mem_singleton] at hkey
    exact ⟨jti, hdrawn, hkey⟩
  saved_revoked token jti hcall hjti _ := hrevoked token jti hcall hjti
  deleted := h.deleted
  counted := h.counted

end TokenFacts

section

variable (settings : AuthSettings) (lower : Text → Text) (policy : PasswordPolicy)
  {call : AuthCall} {es : List (Sigma AuthCmd.Resp)}

/-- Issuing tokens keeps the facts. -/
theorem always_issueTokens {user : User} (h : TokenFacts call es)
    (hnone : es.filterMap savedKey = []) (hrevoked : ∀ token jti,
      call = .refreshAccessToken token → call.jti = some jti →
      ∃ n, 0 < n ∧ (tokenKey jti, n) ∈ es.filterMap deletedKey) :
    (AuthService.issueTokens settings user).Always (TokenFacts call) (fun _ _ => True) es := by
  refine Prog.Always.call h fun jti => Prog.Always.call (h.cons _ rfl rfl rfl) fun _ => ⟨?_, trivial⟩
  exact (h.cons ⟨.uuid4, jti⟩ rfl rfl rfl).cons_saved hnone List.mem_cons_self hrevoked _ _

/-- Refusing a login keeps them. -/
theorem always_refuse {α : Type} {email : String} {clientIp : Option String}
    (h : TokenFacts call es) :
    (AuthService.refuse settings lower email clientIp : AuthSession α).Always (TokenFacts call)
      (fun _ _ => True) es :=
  Prog.Always.call h fun _ => ⟨h.cons_counted _, trivial⟩

/-- A login keeps them. -/
theorem always_authenticate {email password : String} {clientIp : Option String} :
    (AuthService.authenticate settings lower policy email password clientIp).Always
      (TokenFacts (.authenticate email password clientIp)) (fun _ _ => True) [] := by
  refine Prog.Always.bind (A := fun _ es => es.filterMap savedKey = []) (E := fun _ _ => True)
    (fun locked es h hnone => ?_) (fun _ _ _ => trivial) ?_
  · obtain ⟨isLocked, retryAfter⟩ := locked
    dsimp only
    split
    · exact ⟨h, trivial⟩
    unfold AuthService.checkPassword
    split
    · refine Prog.Always.call h fun user => ?_
      have hfound := h.cons ⟨.getByEmail email, user⟩ rfl rfl rfl
      cases user with
      | none =>
        exact Prog.Always.call hfound fun _ => always_refuse settings lower (hfound.cons _ rfl rfl rfl)
      | some user =>
        refine Prog.Always.call hfound fun valid => ?_
        have hverified := hfound.cons ⟨.verify password user.passwordHash, valid⟩ rfl rfl rfl
        cases valid with
        | true =>
          refine Prog.Always.call hverified fun n => ?_
          exact always_issueTokens settings (hverified.cons_reset n) hnone
            fun _ _ hcall => nomatch hcall
        | false => exact always_refuse settings lower hverified
    · exact always_refuse settings lower h
  · refine Prog.Always.call .nil fun attempts => ?_
    have hread := (.nil : TokenFacts (.authenticate email password clientIp) []).cons
      ⟨.get (attemptsKey lower email clientIp), attempts⟩ rfl rfl rfl
    rcases attempts with _ | n | _
    · exact ⟨hread, rfl⟩
    · dsimp only
      split
      · exact ⟨hread, rfl⟩
      · exact Prog.Always.call hread fun ttl => ⟨hread.cons _ rfl rfl rfl, rfl⟩
    · exact ⟨hread, trivial⟩

/-- **A refresh keeps them**: the old token is deleted before the new one is saved. -/
theorem always_refreshAccessToken {token : Except AuthError RefreshPayload} :
    (AuthService.refreshAccessToken settings token).Always
      (TokenFacts (.refreshAccessToken token)) (fun _ _ => True) [] := by
  unfold AuthService.refreshAccessToken
  split
  · exact ⟨.nil, trivial⟩
  · rename_i payload
    split
    · exact ⟨.nil, trivial⟩
    · rename_i jti hjti
      have hcall : (AuthCall.refreshAccessToken (.ok payload)).jti = some jti := hjti
      refine Prog.Always.call .nil fun (n : ℕ) => ?_
      have hdeleted := TokenFacts.nil.cons_revoke hcall n
      change (if decide (0 < n) = true then _ else _ : AuthSession TokenPair).Always _ _ _
      split
      · rename_i hn
        refine Prog.Always.call hdeleted fun user => ?_
        have hfound := hdeleted.cons ⟨.getById payload.sub, user⟩ rfl rfl rfl
        cases user with
        | none => exact ⟨hfound, trivial⟩
        | some user =>
          refine always_issueTokens settings hfound rfl fun token' jti' _ hjti' => ?_
          obtain rfl := Option.some.inj (hcall.symm.trans hjti')
          exact ⟨n, of_decide_eq_true hn, List.mem_cons_self⟩
      · exact ⟨hdeleted, trivial⟩

/-- A logout keeps them, and deletes the token that it was given. -/
theorem always_logout {token : Except AuthError RefreshPayload} :
    (AuthService.logout token).Always (TokenFacts (.logout token))
      (fun _ => LogoutFacts (.logout token)) [] := by
  unfold AuthService.logout
  split
  · exact ⟨.nil, fun _ _ _ hjti => nomatch hjti⟩
  · rename_i payload
    split
    · rename_i hnone
      refine ⟨.nil, fun token' jti _ hjti => ?_⟩
      exact nomatch hnone.symm.trans hjti
    · rename_i jti hjti
      have hcall : (AuthCall.logout (.ok payload)).jti = some jti := hjti
      refine Prog.Always.call .nil fun n => ⟨TokenFacts.nil.cons_revoke hcall n, ?_⟩
      intro token' jti' _ hjti'
      obtain rfl := Option.some.inj (hjti.symm.trans hjti')
      exact ⟨n, List.mem_cons_self⟩

/-- **What a call does**, whatever the answers. -/
theorem always_program (call : AuthCall) :
    (call.program settings lower policy).Always (TokenFacts call) (fun _ => LogoutFacts call) [] := by
  cases call with
  | authenticate email password clientIp =>
    exact (always_authenticate settings lower policy).map (fun _ _ _ _ _ hcall => nomatch hcall)
      fun _ _ _ _ _ hcall => nomatch hcall
  | refreshAccessToken token =>
    exact (always_refreshAccessToken settings).map (fun _ _ _ _ _ hcall => nomatch hcall)
      fun _ _ _ _ _ hcall => nomatch hcall
  | logout token =>
    have h : (AuthService.logout token).Always (TokenFacts (.logout token))
        (fun _ => LogoutFacts (.logout token)) [] := always_logout
    refine Prog.Always.bind (A := fun _ => LogoutFacts (.logout token))
      (E := fun _ => LogoutFacts (.logout token)) (fun _ es hes hlogout => ?_)
      (fun _ _ hlogout => hlogout) (h.mono (fun _ hes => hes) fun r _ hlogout => ?_)
    · exact ⟨hes, hlogout⟩
    · cases r <;> exact hlogout

end

/-! ## What all calls do together -/

section

variable {settings : AuthSettings} {lower : Text → Text} {policy : PasswordPolicy} {P : Type}
  [DecidableEq P]

/-- The calls of the authentication at some moment of a run. -/
abbrev AuthConfig (settings : AuthSettings) (lower : Text → Text) (policy : PasswordPolicy)
    (P : Type) : Type :=
  Config (authSystem settings lower policy) P

/-- No call has been made, and Redis is empty. -/
def AuthConfig.start (settings : AuthSettings) (lower : Text → Text) (policy : PasswordPolicy)
    (P : Type) : AuthConfig settings lower policy P :=
  init _ P AuthState.empty

/-- Each call has given the commands that its program gives. -/
abbrev AlongTokens (c : AuthConfig settings lower policy P) : Prop :=
  c.Along TokenFacts fun call _ => LogoutFacts call

/-- **What keeps tokens from being exchanged twice.** -/
structure Rotation (c : AuthConfig settings lower policy P) : Prop where
  drawn_known : ∀ p jti, (p, jti) ∈ c.occurrences drawnJti → jti ∈ c.state.known
  drawn_once : ∀ p q jti, (p, jti) ∈ c.occurrences drawnJti → (q, jti) ∈ c.occurrences drawnJti →
    p = q
  saved_mem : ∀ key, key ∈ c.state.saved ↔ ∃ p, (p, key) ∈ c.occurrences savedKey
  /-- A key that a `DEL` was for is gone. -/
  gone : ∀ p jti n, (p, tokenKey jti, n) ∈ c.occurrences deletedKey →
    c.state.redis (tokenKey jti) = none
  /-- A `DEL` that found its key is the first one for it. -/
  first : ∀ pre post p jti n, c.occurrences deletedKey = pre ++ (p, tokenKey jti, n) :: post →
    0 < n → ∀ q m, (q, tokenKey jti, m) ∉ post
  presented : ∀ p (call : AuthCall) jti, c.callOf p = some call → call.jti = some jti →
    jti ∈ c.state.known ∧
      (tokenKey jti ∈ c.state.saved ∨ ∀ q, (q, jti) ∉ c.occurrences drawnJti)

/-- At the start no token is there. -/
theorem rotation_start : Rotation (AuthConfig.start settings lower policy P) where
  drawn_known _ _ h := absurd h List.not_mem_nil
  drawn_once _ _ _ h := absurd h List.not_mem_nil
  saved_mem _ := ⟨fun h => absurd h List.not_mem_nil, fun ⟨_, h⟩ => absurd h List.not_mem_nil⟩
  gone _ _ _ h := absurd h List.not_mem_nil
  first pre post _ _ _ h := absurd h.symm (by simp [AuthConfig.start, init, occurrences])
  presented _ _ _ h := nomatch h

variable {c c' : AuthConfig settings lower policy P}

/-- A command that draws, saves and removes nothing, and leaves the tokens in Redis alone. -/
theorem Rotation.act_same (h : Rotation c) {p : P} {e : Sigma AuthCmd.Resp}
    {proc : Proc (authSystem settings lower policy)} {s : AuthState}
    (hp : c.callOf p = some proc.call) (hdrawn : drawnJti e = none) (hsaved : savedKey e = none)
    (hdeleted : deletedKey e = none)
    (hredis : ∀ jti, s.redis (tokenKey jti) = c.state.redis (tokenKey jti))
    (hknown : s.known = c.state.known) (hs : s.saved = c.state.saved) :
    Rotation (c.advance (.act p e) p proc s) := by
  have hocc : ∀ {β : Type} (f : Sigma AuthCmd.Resp → Option β), f e = none →
      (c.advance (.act p e) p proc s).occurrences f = c.occurrences f := by
    intro β f hf
    change List.filterMap _ (.act p e :: c.trace) = _
    rw [List.filterMap_cons_none (by simp only [hf, Option.map_none])]
    rfl
  refine ⟨?_, ?_, ?_, ?_, ?_, ?_⟩
  · rw [hocc _ hdrawn]
    exact hknown ▸ h.drawn_known
  · rw [hocc _ hdrawn]
    exact h.drawn_once
  · rw [hocc _ hsaved]
    exact hs ▸ h.saved_mem
  · rw [hocc _ hdeleted]
    exact fun q jti n hmem => (hredis jti).trans (h.gone q jti n hmem)
  · rw [hocc _ hdeleted]
    exact h.first
  · rw [hocc _ hdrawn]
    intro q call jti hq hjti
    have hpresented := h.presented q call jti ((callOf_advance hp q).symm.trans hq) hjti
    exact hknown ▸ hs ▸ hpresented

/-- A fresh `jti`. -/
theorem Rotation.act_uuid4 (h : Rotation c) {p : P} {jti : String}
    {proc : Proc (authSystem settings lower policy)} (hp : c.callOf p = some proc.call)
    (hfresh : jti ∉ c.state.known) :
    Rotation (c.advance (.act p ⟨.uuid4, jti⟩) p proc (c.state.learn jti)) where
  drawn_known q jti' hmem := by
    rcases List.mem_cons.mp hmem with heq | hmem
    · cases heq
      exact List.mem_cons_self
    · exact List.mem_cons_of_mem _ (h.drawn_known q jti' hmem)
  drawn_once q q' jti' hmem hmem' := by
    rcases List.mem_cons.mp hmem with heq | hmem <;> rcases List.mem_cons.mp hmem' with heq' | hmem'
    · exact (Prod.mk.inj heq).1.trans (Prod.mk.inj heq').1.symm
    · exact absurd ((Prod.mk.inj heq).2 ▸ h.drawn_known q' jti' hmem') hfresh
    · exact absurd ((Prod.mk.inj heq').2 ▸ h.drawn_known q jti' hmem) hfresh
    · exact h.drawn_once q q' jti' hmem hmem'
  saved_mem := h.saved_mem
  gone := h.gone
  first := h.first
  presented q call jti' hq hjti := by
    obtain ⟨hknown, hsaved⟩ := h.presented q call jti' ((callOf_advance hp q).symm.trans hq) hjti
    refine ⟨List.mem_cons_of_mem _ hknown, hsaved.imp_right fun hnot q' hmem => ?_⟩
    rcases List.mem_cons.mp hmem with heq | hmem
    · exact hfresh ((Prod.mk.inj heq).2 ▸ hknown)
    · exact hnot q' hmem

/-- A `jti` that is about to be saved was not saved before. -/
theorem Rotation.not_saved (h : Rotation c) (hc : AlongTokens c) {p : P} {jti : String}
    (hdrew : (p, jti) ∈ c.occurrences drawnJti) (hnone : (c.events p).filterMap savedKey = []) :
    tokenKey jti ∉ c.state.saved := by
  intro hsaved
  obtain ⟨q, hq⟩ := (h.saved_mem _).mp hsaved
  obtain ⟨call, -, hfacts⟩ := hc.of_occurrence hq
  obtain ⟨jti', hdrawn, hkey⟩ := hfacts.saved_drawn _ (mem_occurrences.mp hq)
  obtain rfl := tokenKey_injective hkey
  obtain rfl := h.drawn_once _ _ _ (mem_occurrences.mpr hdrawn) hdrew
  exact List.eq_nil_iff_forall_not_mem.mp hnone _ (mem_occurrences.mp hq)

/-- A `jti` that is about to be saved was not presented before. -/
theorem Rotation.not_deleted (h : Rotation c) (hc : AlongTokens c) {p : P} {jti : String}
    (hdrew : (p, jti) ∈ c.occurrences drawnJti) (hnew : tokenKey jti ∉ c.state.saved) (q : P)
    (n : ℕ) : (q, tokenKey jti, n) ∉ c.occurrences deletedKey := by
  intro hmem
  obtain ⟨call, hq, hfacts⟩ := hc.of_occurrence hmem
  have hjti := hfacts.deleted jti n (mem_occurrences.mp hmem)
  exact (h.presented q call jti hq hjti).2.elim hnew fun hnot => hnot p hdrew

/-- A new `jti` is saved. -/
theorem Rotation.act_set (h : Rotation c) (hc : AlongTokens c) {p : P} {key : String}
    {userId : Uuid} {seconds : ℤ} {proc : Proc (authSystem settings lower policy)}
    (hp : c.callOf p = some proc.call)
    (hfacts : TokenFacts proc.call (⟨.set key userId seconds, ()⟩ :: c.events p)) :
    Rotation (c.advance (.act p ⟨.set key userId seconds, ()⟩) p proc
      { c.state.put key (some (.userId userId)) with saved := key :: c.state.saved }) := by
  obtain ⟨jti, hdrawn, rfl⟩ := hfacts.saved_drawn key List.mem_cons_self
  have hdrew : (p, jti) ∈ c.occurrences drawnJti := mem_occurrences.mpr hdrawn
  have hnone : (c.events p).filterMap savedKey = [] :=
    List.eq_nil_of_length_eq_zero (Nat.le_zero.mp (Nat.le_of_succ_le_succ hfacts.saved_once))
  have hnew := h.not_saved hc hdrew hnone
  exact {
    drawn_known := h.drawn_known
    drawn_once := h.drawn_once
    saved_mem := fun key => by
      change key ∈ tokenKey jti :: c.state.saved ↔
        ∃ q, (q, key) ∈ (p, tokenKey jti) :: c.occurrences savedKey
      simp only [List.mem_cons, h.saved_mem, Prod.mk.injEq, exists_or, exists_eq_left]
    gone := fun q jti' n hmem => by
      have hne : jti' ≠ jti := by
        rintro rfl
        exact h.not_deleted hc hdrew hnew q n hmem
      exact (Function.update_of_ne (fun heq => hne (tokenKey_injective heq)) _ _).trans
        (h.gone q jti' n hmem)
    first := h.first
    presented := fun q call jti' hq hjti => by
      obtain ⟨hknown, hsaved⟩ := h.presented q call jti' ((callOf_advance hp q).symm.trans hq) hjti
      exact ⟨hknown, hsaved.imp_left (List.mem_cons_of_mem _)⟩ }

/-- A `DEL` removes its key, and finds it only when no `DEL` was for it before. -/
theorem Rotation.act_del (h : Rotation c) {p : P} {key : String} {n : ℕ}
    {proc : Proc (authSystem settings lower policy)} (hp : c.callOf p = some proc.call)
    (hn : n = if (c.state.redis key).isSome = true then 1 else 0) :
    Rotation (c.advance (.act p ⟨.del key, n⟩) p proc (c.state.put key none)) where
  drawn_known := h.drawn_known
  drawn_once := h.drawn_once
  saved_mem := h.saved_mem
  gone q jti m hmem := by
    by_cases hkey : tokenKey jti = key
    · subst hkey
      exact Function.update_self ..
    · rcases List.mem_cons.mp hmem with heq | hmem
      · exact absurd (Prod.mk.inj (Prod.mk.inj heq).2).1 hkey
      · exact (Function.update_of_ne hkey _ _).trans (h.gone q jti m hmem)
  first pre post q jti m heq hm q' m' hmem := by
    change (p, key, n) :: c.occurrences deletedKey = _ at heq
    cases pre with
    | nil =>
      obtain ⟨hhead, rfl⟩ := List.cons.inj heq
      obtain ⟨rfl, hrest⟩ := Prod.mk.inj hhead
      obtain ⟨rfl, rfl⟩ := Prod.mk.inj hrest
      rw [h.gone q' jti m' hmem] at hn
      simp [hn] at hm
    | cons x pre =>
      exact h.first pre post q jti m (List.cons.inj heq).2 hm q' m' hmem
  presented q call jti hq hjti :=
    h.presented q call jti ((callOf_advance hp q).symm.trans hq) hjti

/-- A call is made. -/
theorem Rotation.start (h : Rotation c) {p : P} {call : AuthCall} {s : AuthState}
    (hp : c.procs p = none) (hs : call.begin c.state = some s)
    {rest : Option (AuthSession (Option TokenPair))} :
    Rotation (c.advance (.start p call) p ⟨call, rest⟩ s) := by
  obtain ⟨hredis, hsaved, hknown, hpresented⟩ := AuthCall.begin_spec hs
  exact {
    drawn_known := fun q jti hmem => hknown jti (h.drawn_known q jti hmem)
    drawn_once := h.drawn_once
    saved_mem := fun key => hsaved ▸ h.saved_mem key
    gone := fun q jti n hmem => hredis ▸ h.gone q jti n hmem
    first := h.first
    presented := fun q call' jti hq hjti => by
      by_cases hqp : q = p
      · subst hqp
        simp only [callOf, advance, Function.update_self, Option.map_some] at hq
        obtain rfl := Option.some.inj hq
        refine ⟨(hpresented jti hjti).1, ?_⟩
        rw [show (c.advance _ q _ s).state.saved = c.state.saved from hsaved]
        exact (hpresented jti hjti).2.imp_right fun hnew q' hmem =>
          hnew (h.drawn_known q' jti hmem)
      · have hq' : c.callOf q = some call' := by
          simpa [callOf, advance, Function.update_of_ne hqp] using hq
        obtain ⟨hmem, hor⟩ := h.presented q call' jti hq' hjti
        exact ⟨hknown jti hmem, hsaved ▸ hor⟩ }

/-- **One move** keeps the rotation. -/
theorem Rotation.move (hc : AlongTokens c) (hc' : AlongTokens c') (h : Rotation c)
    {m : Move (authSystem settings lower policy) P} (hm : c.move m = some c') : Rotation c' := by
  cases m with
  | start p call =>
    obtain ⟨hp, s, hs, rfl⟩ := move_start hm
    exact h.start hp hs
  | act p e =>
    obtain ⟨call, next, s, hp, hs, rfl⟩ := move_act hm
    have hcall : c.callOf p = some call := congrArg (Option.map Proc.call) hp
    have hfacts : TokenFacts call (e :: c.events p) :=
      ((hc.rest hp).2 e.2).here
    obtain ⟨cmd, r⟩ := e
    cases cmd with
    | get key =>
      obtain ⟨-, rfl⟩ := AuthCmd.respond_get hs
      exact h.act_same hcall rfl rfl rfl (fun _ => rfl) rfl rfl
    | ttl key | getByEmail email | getById id | hash password | verify password passwordHash =>
      cases hs
      exact h.act_same hcall rfl rfl rfl (fun _ => rfl) rfl rfl
    | incrExpire key seconds =>
      have hkey := hfacts.counted key List.mem_cons_self
      rcases AuthCmd.respond_incrExpire seconds hs with ⟨-, rfl⟩ | ⟨n, -, rfl⟩
      · exact h.act_same hcall rfl rfl rfl
          (fun jti => Function.update_of_ne (hkey jti).symm _ _) rfl rfl
      · exact h.act_same hcall rfl rfl rfl
          (fun jti => Function.update_of_ne (hkey jti).symm _ _) rfl rfl
    | del key =>
      obtain ⟨hn, rfl⟩ := AuthCmd.respond_del hs
      exact h.act_del hcall hn
    | set key userId seconds =>
      cases hs
      exact h.act_set hc hcall hfacts
    | uuid4 =>
      obtain ⟨hfresh, rfl⟩ := AuthCmd.respond_uuid4 hs
      exact h.act_uuid4 hcall hfresh
  | stop p =>
    obtain ⟨proc, hp, rfl⟩ := move_stop hm
    have hcall : c.callOf p = some (⟨proc.call, none⟩ : Proc _).call :=
      congrArg (Option.map Proc.call) hp
    refine ⟨h.drawn_known, h.drawn_once, h.saved_mem, h.gone, h.first, fun q call jti hq hjti => ?_⟩
    have hkept : c.callOf q = some call := (callOf_advance hcall q).symm.trans hq
    exact h.presented q call jti hkept hjti
  | env key =>
    obtain ⟨s, hs, rfl⟩ := move_env hm
    cases hs
    refine ⟨h.drawn_known, h.drawn_once, h.saved_mem, fun q jti n hmem => ?_, h.first, h.presented⟩
    by_cases hkey : tokenKey jti = key
    · subst hkey
      exact Function.update_self ..
    · exact (Function.update_of_ne hkey _ _).trans (h.gone q jti n hmem)

/-- Every reachable configuration has its tokens rotated. -/
theorem rotation_of_reaches (h : (AuthConfig.start settings lower policy P).Reaches c) :
    AlongTokens c ∧ Rotation c :=
  Reaches.induct (always_program settings lower policy) rotation_start
    (fun hc hc' hi hm => hi.move hc hc' hm) h

/-! ## Exchanges, logins and logouts -/

/-- The call has exchanged one `jti` for another one. -/
def Exchanged (c : AuthConfig settings lower policy P) (p : P) (jti jti' : String) : Prop :=
  ∃ token, c.callOf p = some (.refreshAccessToken token) ∧
    (AuthCall.refreshAccessToken token).jti = some jti ∧
    (p, tokenKey jti') ∈ c.occurrences savedKey

/-- The call is a login that has saved a `jti`. -/
def LoggedIn (c : AuthConfig settings lower policy P) (p : P) (jti : String) : Prop :=
  ∃ email password clientIp, c.callOf p = some (.authenticate email password clientIp) ∧
    (p, tokenKey jti) ∈ c.occurrences savedKey

/-- The call is a logout that has returned. -/
def LoggedOut (c : AuthConfig settings lower policy P) (p : P) (jti : String) : Prop :=
  ∃ token proc, c.procs p = some proc ∧ proc.call = AuthCall.logout token ∧
    (AuthCall.logout token).jti = some jti ∧ proc.result = some (.ok none)

/-- The chain of exchanges. -/
def Chain (c : AuthConfig settings lower policy P) : String → String → Prop :=
  Relation.ReflTransGen fun jti jti' => ∃ p, Exchanged c p jti jti'

def TokenStored (c : AuthConfig settings lower policy P) (jti : String) : Prop :=
  (c.state.redis (tokenKey jti)).isSome = true

/-- The `DEL` of one call found the key, and came before the `DEL` of the other one. -/
def RevokedBefore (c : AuthConfig settings lower policy P) (p q : P) (jti : String) : Prop :=
  ∃ pre post n m, c.occurrences deletedKey = pre ++ (q, tokenKey jti, n) :: post ∧
    (p, tokenKey jti, m) ∈ post ∧ 0 < m

/-- An exchanged token was deleted. -/
theorem Exchanged.revoked (hc : AlongTokens c) {p : P} {jti jti' : String}
    (h : Exchanged c p jti jti') :
    ∃ n, 0 < n ∧ (p, tokenKey jti, n) ∈ c.occurrences deletedKey := by
  obtain ⟨token, hcall, hjti, hsaved⟩ := h
  obtain ⟨call, hcall', hfacts⟩ := hc.of_occurrence hsaved
  obtain rfl := Option.some.inj (hcall.symm.trans hcall')
  obtain ⟨n, hn, hmem⟩ := hfacts.saved_revoked token jti rfl hjti
    (List.ne_nil_of_mem (mem_occurrences.mp hsaved))
  exact ⟨n, hn, mem_occurrences.mpr hmem⟩

/-- It is not stored any more. -/
theorem Exchanged.not_stored (hc : AlongTokens c) (hr : Rotation c) {p : P} {jti jti' : String}
    (h : Exchanged c p jti jti') : ¬ TokenStored c jti := by
  obtain ⟨n, -, hmem⟩ := h.revoked hc
  rw [TokenStored, hr.gone p jti n hmem]
  exact Bool.false_ne_true

/-- Of two `DEL`s for one key, one of which found it, the other one is the later one. -/
theorem Rotation.eq_or_before (hr : Rotation c) {p q : P} {jti : String} {n m : ℕ}
    (hp : (p, tokenKey jti, m) ∈ c.occurrences deletedKey) (hm : 0 < m)
    {pre post : List (P × String × ℕ)}
    (hq : c.occurrences deletedKey = pre ++ (q, tokenKey jti, n) :: post) :
    p = q ∨ (p, tokenKey jti, m) ∈ post := by
  rw [hq, List.mem_append, List.mem_cons] at hp
  rcases hp with hpre | heq | hpost
  · obtain ⟨a, b, rfl⟩ := List.append_of_mem hpre
    rw [List.append_assoc, List.cons_append] at hq
    exact absurd (List.mem_append_right b List.mem_cons_self) (hr.first _ _ p jti m hq hm q n)
  · exact .inl (Prod.mk.inj heq).1
  · exact .inr hpost

/-- **At most once.** -/
theorem Exchanged.unique (hc : AlongTokens c) (hr : Rotation c) {p q : P} {jti j₁ j₂ : String}
    (hp : Exchanged c p jti j₁) (hq : Exchanged c q jti j₂) : p = q ∧ j₁ = j₂ := by
  obtain ⟨m, hm, hpmem⟩ := hp.revoked hc
  obtain ⟨n, hn, hqmem⟩ := hq.revoked hc
  obtain ⟨pre, post, hsplit⟩ := List.append_of_mem hqmem
  have hpq : p = q := (hr.eq_or_before hpmem hm hsplit).resolve_right fun hpost =>
    hr.first pre post q jti n hsplit hn p m hpost
  subst hpq
  obtain ⟨-, -, -, h₁⟩ := hp
  obtain ⟨-, -, -, h₂⟩ := hq
  obtain ⟨call, -, hfacts⟩ := hc.of_occurrence h₁
  exact ⟨rfl, tokenKey_injective
    (hfacts.saved_unique (mem_occurrences.mp h₁) (mem_occurrences.mp h₂))⟩

/-- **At most one of a chain is stored.** -/
theorem Chain.stored_unique (hc : AlongTokens c) (hr : Rotation c) {j₀ j₁ j₂ : String}
    (h₁ : Chain c j₀ j₁) (h₂ : Chain c j₀ j₂) (hs₁ : TokenStored c j₁) (hs₂ : TokenStored c j₂) : j₁ = j₂ := by
  have hunique : Relator.RightUnique fun jti jti' => ∃ p, Exchanged c p jti jti' :=
    fun _ _ _ ⟨_, hp⟩ ⟨_, hq⟩ => (hp.unique hc hr hq).2
  have hlast : ∀ {a b : String}, Chain c a b → TokenStored c a → a = b := by
    intro a b hab ha
    rcases Relation.ReflTransGen.cases_head hab with rfl | ⟨a', ⟨p, hp⟩, -⟩
    · rfl
    · exact absurd ha (hp.not_stored hc hr)
  rcases Relation.ReflTransGen.total_of_right_unique hunique h₁ h₂ with h | h
  · exact hlast h hs₁
  · exact (hlast h hs₂).symm

/-- After a logout its token was deleted. -/
theorem LoggedOut.deleted (hc : AlongTokens c) {q : P} {jti : String} (h : LoggedOut c q jti) :
    ∃ n, (q, tokenKey jti, n) ∈ c.occurrences deletedKey := by
  obtain ⟨token, proc, hq, hcall, hjti, hresult⟩ := h
  obtain ⟨n, hmem⟩ := hc.ended hq hresult token jti hcall (hcall ▸ hjti)
  exact ⟨n, mem_occurrences.mpr hmem⟩

/-- **After a logout** only a call exchanges the `jti` that had removed it before the logout did. -/
theorem LoggedOut.revokedBefore (hc : AlongTokens c) (hc' : AlongTokens c') (hr' : Rotation c')
    (hreach : c.Reaches c') {p q : P} {jti jti' : String} (hq : LoggedOut c q jti)
    (hp : Exchanged c' p jti jti') : RevokedBefore c p q jti := by
  obtain ⟨n, hdeleted⟩ := hq.deleted hc
  obtain ⟨m, hm, hmem⟩ := hp.revoked hc'
  obtain ⟨pre, post, hsplit⟩ := List.append_of_mem hdeleted
  obtain ⟨new, hnew⟩ := hreach.occurrences_suffix deletedKey
  rw [hsplit, ← List.append_assoc] at hnew
  rcases hr'.eq_or_before hmem hm hnew.symm with rfl | hpost
  · obtain ⟨token, hcall, -⟩ := hp
    obtain ⟨token', proc, hproc, hlogout, -⟩ := hq
    have hkept := hreach.callOf_kept (congrArg (Option.map Proc.call) hproc)
    exact nomatch hlogout.symm.trans (Option.some.inj (hkept.symm.trans hcall))
  · exact ⟨pre, post, n, m, hsplit, hpost, hm⟩

/-- **Rotation of refresh tokens.** In every run of logins, exchanges and logouts a `jti` is exchanged
for a new one at most once, and at most one `jti` of the chain of a login is stored; after a logout
has returned, its `jti` is exchanged only by a call whose `DEL` had found it before that of the
logout. -/
theorem refresh_rotation (h : (AuthConfig.start settings lower policy P).Reaches c) :
    (∀ p q jti j₁ j₂, Exchanged c p jti j₁ → Exchanged c q jti j₂ → p = q ∧ j₁ = j₂) ∧
    (∀ p j₀ j₁ j₂, LoggedIn c p j₀ → Chain c j₀ j₁ → Chain c j₀ j₂ → TokenStored c j₁ → TokenStored c j₂ →
      j₁ = j₂) ∧
    ∀ q jti, LoggedOut c q jti → ∀ c' p jti', c.Reaches c' → Exchanged c' p jti jti' →
      RevokedBefore c p q jti := by
  obtain ⟨hc, hr⟩ := rotation_of_reaches h
  refine ⟨fun p q jti j₁ j₂ hp hq => hp.unique hc hr hq,
    fun _ _ _ _ _ h₁ h₂ hs₁ hs₂ => h₁.stored_unique hc hr h₂ hs₁ hs₂,
    fun q jti hq c' p jti' hreach hp => ?_⟩
  obtain ⟨hc', hr'⟩ := rotation_of_reaches (h.trans hreach)
  exact hq.revokedBefore hc hc' hr' hreach hp

end

/-! ## A logout during an exchange -/

/-- The calls of the authentication with the default settings. -/
abbrev sampleStart : AuthConfig {} id {} ℕ := AuthConfig.start _ _ _ _

/-- The token of the first login, as it is presented. -/
def firstToken : Except AuthError RefreshPayload := .ok ⟨(1, 0), some "a"⟩

/-- Call 0 logs in; call 1 removes the token in exchange for a new one; call 2 logs out with it. -/
def logoutDuringExchange : List (Move (authSystem {} id {}) ℕ) :=
  [.start 0 (.authenticate "user@example.org" "password" none),
    .act 0 ⟨.get (attemptsKey id "user@example.org" none), (none : Option RedisValue)⟩,
    .act 0 ⟨.getByEmail "user@example.org", some (⟨(1, 0), "user", "hash"⟩ : User)⟩,
    .act 0 ⟨.verify "password" "hash", true⟩,
    .act 0 ⟨.del (attemptsKey id "user@example.org" none), (0 : ℕ)⟩,
    .act 0 ⟨.uuid4, "a"⟩, .act 0 ⟨.set (tokenKey "a") (1, 0) 2592000, ()⟩,
    .start 1 (.refreshAccessToken firstToken), .act 1 ⟨.del (tokenKey "a"), (1 : ℕ)⟩,
    .start 2 (.logout firstToken), .act 2 ⟨.del (tokenKey "a"), (0 : ℕ)⟩]

/-- Call 1 goes on. -/
def exchangeFinished : List (Move (authSystem {} id {}) ℕ) :=
  [.act 1 ⟨.getById (1, 0), some (⟨(1, 0), "user", "hash"⟩ : User)⟩, .act 1 ⟨.uuid4, "b"⟩,
    .act 1 ⟨.set (tokenKey "b") (1, 0) 2592000, ()⟩]

/-- A refresh that has deleted the token ends after a logout. -/
theorem exchange_after_logout_run : ∃ c c', sampleStart.Reaches c ∧ c.Reaches c' ∧
    LoggedOut c 2 "a" ∧ Exchanged c' 1 "a" "b" ∧ ¬ Exchanged c 1 "a" "b" := by
  have hrun : (play logoutDuringExchange sampleStart).any (fun c =>
      c.performs 1 (AuthCall.refreshAccessToken firstToken) &&
        c.performs 2 (AuthCall.logout firstToken) && c.returned 2 none &&
        decide ((1, tokenKey "b") ∉ c.occurrences savedKey) &&
        (play exchangeFinished c).any fun c' =>
          decide ((1, tokenKey "b") ∈ c'.occurrences savedKey)) = true := by
    decide +kernel
  obtain ⟨c, hc, hprops⟩ := (Option.any_eq_true _ _).mp hrun
  simp only [Bool.and_eq_true, decide_eq_true_eq] at hprops
  obtain ⟨⟨⟨⟨hrefresh, hlogout⟩, hreturned⟩, hbefore⟩, hafter⟩ := hprops
  obtain ⟨c', hc', hsaved⟩ := (Option.any_eq_true _ _).mp hafter
  have hreach := reaches_of_play hc'
  refine ⟨c, c', reaches_of_play hc, hreach, ?_, ?_, ?_⟩
  · obtain ⟨call, hproc⟩ := (returned_iff (S := authSystem {} id {})).mp hreturned
    have hcall := (performs_iff (S := authSystem {} id {})).mp hlogout
    rw [callOf, hproc] at hcall
    exact ⟨firstToken, _, hproc, Option.some.inj hcall, by decide, rfl⟩
  · exact ⟨firstToken, hreach.callOf_kept ((performs_iff (S := authSystem {} id {})).mp hrefresh), by decide,
      of_decide_eq_true hsaved⟩
  · rintro ⟨-, -, -, hsaved⟩
    exact hbefore hsaved

/-- Nothing is exchanged twice, and the exchange that the logout overtook had begun before it. -/
theorem rotation_in_run : ∃ c c', sampleStart.Reaches c ∧ c.Reaches c' ∧
    (∀ p q jti j₁ j₂, Exchanged c' p jti j₁ → Exchanged c' q jti j₂ → p = q ∧ j₁ = j₂) ∧
    RevokedBefore c 1 2 "a" := by
  obtain ⟨c, c', hc, hc', hlogout, hexchange, -⟩ := exchange_after_logout_run
  exact ⟨c, c', hc, hc', (refresh_rotation (hc.trans hc')).1,
    (refresh_rotation hc).2.2 2 "a" hlogout c' 1 "b" hc' hexchange⟩

/-- The logout has returned before the new token is saved. -/
theorem exchanged_after_logout :
    ¬ ∀ (settings : AuthSettings) (lower : Text → Text) (policy : PasswordPolicy)
      (c c' : AuthConfig settings lower policy ℕ) (p q : ℕ) (jti jti' : String),
      (AuthConfig.start settings lower policy ℕ).Reaches c → c.Reaches c' → LoggedOut c q jti →
      Exchanged c' p jti jti' → Exchanged c p jti jti' := by
  intro h
  obtain ⟨c, c', hc, hc', hlogout, hexchange, hnot⟩ := exchange_after_logout_run
  exact hnot (h _ _ _ c c' 1 2 "a" "b" hc hc' hlogout hexchange)

end SyncBack
