import SyncBack.Core.BodySizeLimit

/-!
# Limited request bodies

What an application can see and do behind `BodySizeLimitMiddleware`, for every application, every
server and every run.

* `body_limited` — an application never gets more than the limit, however the body is cut into messages
  and whatever length was declared; below the limit it runs as it does without the middleware. What is
  sent in its place is the answer 413, and only if the declared length or the bytes that came are over
  the limit and the application has not begun to answer.
* `keeps_asgi` — an application that sends a response in the order of ASGI does so behind the
  middleware, and one that never ends without a complete response never does.

Applications are well-founded programs, so an application that never ends on some stream of messages
is not among them; the runs spoken of here include the unfinished ones.

A run behind the middleware is a run of the application on what the filter shows (`call_after`,
`call_ends`), so both come from facts about `limits` alone, by induction on the run.
-/

namespace SyncBack.BodySizeLimit

open Effects

variable {ω ε E : Type}

/-! ## The bytes of a run -/

/-- The message is a part of the body. -/
def isBody : Sigma (Resp ω E) → Bool
  | ⟨.receive, .ok (.request _ _)⟩ => true
  | _ => false

def bodyLength : Sigma (Resp ω E) → ℕ
  | ⟨.receive, .ok (.request body _)⟩ => (body.getD []).length
  | _ => 0

/-- The bytes of the body that were handed over. -/
def handed : List (Sigma (Resp ω E)) → ℕ
  | [] => 0
  | e :: t => bodyLength e + handed t

/-- More of the body came than the limit allows. -/
def Over (limit : ℤ) (t : List (Sigma (Resp ω E))) : Prop :=
  t.any isBody = true ∧ limit < (handed t : ℤ)

/-- The exception that was raised in place of an answer. -/
def exception : Sigma (Resp ω E) → Option E
  | ⟨.receive, .error e⟩ => some e
  | ⟨.send _, .error e⟩ => some e
  | _ => none

def isStart : Command ω → Bool
  | .send (.responseStart _ _) => true
  | _ => false

/-- The response has been started. -/
def Started (t : List (Sigma (Resp ω E))) : Prop := t.any (isStart ·.1) = true

/-- One answer more. -/
theorem handed_cons (e : Sigma (Resp ω E)) (t : List (Sigma (Resp ω E))) :
    handed (e :: t) = bodyLength e + handed t := rfl

/-- Bytes add up. -/
theorem handed_append (t t' : List (Sigma (Resp ω E))) :
    handed (t ++ t') = handed t + handed t' := by
  induction t with
  | nil => exact (Nat.zero_add _).symm
  | cons e t ih => rw [List.cons_append, handed_cons, handed_cons, ih, Nat.add_assoc]

/-- A part of the body is a request message. -/
theorem exists_request {e : Sigma (Resp ω E)} (h : isBody e = true) :
    ∃ body more, e = ⟨.receive, .ok (.request body more)⟩ := by
  unfold isBody at h
  split at h
  · exact ⟨_, _, rfl⟩
  · cases h

/-! ## What the filter shows -/

section Limits

variable {limit : ℤ} {detail : String}

/-- Other messages have no bytes of the body. -/
theorem bodyLength_of_not_isBody {e : Sigma (Resp ω E)} (h : isBody e = false) :
    bodyLength e = 0 := by
  unfold isBody at h
  unfold bodyLength
  split <;> simp_all

/-- Without the middleware an answer is shown as it is. -/
theorem shown_plain (e : Sigma (Resp ω ε)) :
    isBody ⟨e.1, plain.shown () e.1 e.2⟩ = isBody e ∧
      bodyLength ⟨e.1, plain.shown () e.1 e.2⟩ = bodyLength e ∧
      ∀ text, exception ⟨e.1, plain.shown () e.1 e.2⟩ ≠ some (.bodyTooLarge text) := by
  obtain ⟨c, r⟩ := e
  cases c with
  | send message => cases r <;> exact ⟨rfl, rfl, fun text h => by cases h⟩
  | receive =>
      cases r with
      | error e => exact ⟨rfl, rfl, fun text h => by cases h⟩
      | ok message => cases message <;> exact ⟨rfl, rfl, fun text h => by cases h⟩

/-- **What the filter shows**: the answer itself, or the refusal of a part of the body that goes over
the limit. -/
theorem shown_cases (n : ℕ) (b : Bool) (e : Sigma (Resp ω ε)) :
    (limits limit detail).shown ⟨n, b⟩ e.1 e.2 = plain.shown () e.1 e.2 ∧
        (isBody e = true → ((n + bodyLength e : ℕ) : ℤ) ≤ limit) ∨
      (⟨e.1, (limits limit detail).shown ⟨n, b⟩ e.1 e.2⟩ : Sigma (Resp ω (Raised ε))) =
          ⟨.receive, .error (.bodyTooLarge detail)⟩ ∧
        isBody e = true ∧ limit < (n + bodyLength e : ℕ) := by
  by_cases hbody : isBody e = true
  · obtain ⟨body, more, rfl⟩ := exists_request hbody
    have hshown : (limits limit detail).shown ⟨n, b⟩ .receive
        (.ok (.request body more) : Except ε (Message ω)) =
          if limit < (n + (body.getD []).length : ℕ) then .error (.bodyTooLarge detail)
          else .ok (.request body more) := rfl
    by_cases hover : limit < (n + (body.getD []).length : ℕ)
    · rw [if_pos hover] at hshown
      exact .inr ⟨congrArg (Sigma.mk _) hshown, hbody, hover⟩
    · rw [if_neg hover] at hshown
      exact .inl ⟨hshown, fun _ => Int.not_lt.mp hover⟩
  · refine .inl ⟨?_, fun h => absurd h hbody⟩
    obtain ⟨c, r⟩ := e
    cases c with
    | send message => rfl
    | receive =>
        cases r with
        | error e => rfl
        | ok message =>
            cases message with
            | request body more => exact absurd rfl hbody
            | _ => rfl

/-- The filter counts what comes and remembers a start. -/
theorem next_limits (n : ℕ) (b : Bool) (e : Sigma (Resp ω ε)) :
    (limits limit detail).next ⟨n, b⟩ e.1 e.2 = ⟨n + bodyLength e, b || isStart e.1⟩ := by
  obtain ⟨c, r⟩ := e
  cases c with
  | send message => cases message <;> cases b <;> rfl
  | receive =>
      rw [show isStart (.receive : Command ω) = false from rfl, Bool.or_false]
      cases r with
      | error e => rfl
      | ok message => cases message <;> rfl

/-- The two variables after a run. -/
theorem after_limits (n : ℕ) (b : Bool) (t : List (Sigma (Resp ω ε))) :
    (limits limit detail).after ⟨n, b⟩ t = ⟨n + handed t, b || t.any (isStart ·.1)⟩ := by
  induction t generalizing n b with
  | nil => simp [Filter.after, handed]
  | cons e t ih =>
      rw [Filter.after, next_limits, ih, handed_cons, List.any_cons, Nat.add_assoc, Bool.or_assoc]

/-- **The application never gets more than what is left of the limit.** -/
theorem handed_seen_le (n : ℕ) (b : Bool) (t : List (Sigma (Resp ω ε))) :
    handed ((limits limit detail).seen ⟨n, b⟩ t) ≤ limit.toNat - n := by
  induction t generalizing n b with
  | nil => exact Nat.zero_le _
  | cons e t ih =>
      rw [Filter.seen, next_limits, handed_cons]
      have hrest := ih (n + bodyLength e) (b || isStart e.1)
      rcases shown_cases n b e with ⟨hshown, hbelow⟩ | ⟨hshown, -, -⟩
      · rw [hshown, (shown_plain e).2.1]
        cases hbody : isBody e with
        | true =>
            have := hbelow hbody
            omega
        | false =>
            have := bodyLength_of_not_isBody hbody
            omega
      · have hnone : bodyLength (⟨.receive, .error (.bodyTooLarge detail)⟩ :
          Sigma (Resp ω (Raised ε))) = 0 := rfl
        rw [hshown, hnone]
        omega

/-- **Below the limit the filter shows what the server answers.** -/
theorem seen_eq_plain {n : ℕ} {b : Bool} {t : List (Sigma (Resp ω ε))}
    (h : t.any isBody = true → ((n + handed t : ℕ) : ℤ) ≤ limit) :
    (limits limit detail).seen ⟨n, b⟩ t = plain.seen () t := by
  induction t generalizing n b with
  | nil => rfl
  | cons e t ih =>
      rw [handed_cons, List.any_cons, Bool.or_eq_true] at h
      rw [Filter.seen, Filter.seen, next_limits, ih fun ht => by
        have := h (.inr ht)
        rwa [← Nat.add_assoc] at this]
      rcases shown_cases n b e with ⟨hshown, -⟩ | ⟨-, hbody, hover⟩
      · rw [hshown]
      · have := h (.inl hbody)
        omega

/-- Without a part of the body nothing is handed over. -/
theorem handed_of_no_body {t : List (Sigma (Resp ω E))} (h : t.any isBody = false) :
    handed t = 0 := by
  induction t with
  | nil => rfl
  | cons e t ih =>
      rw [List.any_cons, Bool.or_eq_false_iff] at h
      rw [handed_cons, bodyLength_of_not_isBody h.1, ih h.2]

/-- What is over the limit is refused. -/
theorem refused_of_over {n : ℕ} {b : Bool} {t : List (Sigma (Resp ω ε))}
    (hbody : t.any isBody = true) (hover : limit < (n + handed t : ℕ)) :
    ⟨.receive, .error (.bodyTooLarge detail)⟩ ∈ (limits limit detail).seen ⟨n, b⟩ t := by
  induction t generalizing n b with
  | nil => cases hbody
  | cons e t ih =>
      rw [Filter.seen, next_limits, List.mem_cons]
      rw [handed_cons] at hover
      rcases shown_cases n b e with ⟨-, hbelow⟩ | ⟨hshown, -, -⟩
      · refine .inr ?_
        cases ht : t.any isBody with
        | true => exact ih ht (by omega)
        | false =>
            rw [List.any_cons, ht, Bool.or_false] at hbody
            rw [handed_of_no_body ht] at hover
            exact absurd hover (Int.not_lt.mpr (hbelow hbody))
      · exact .inl hshown.symm

/-- `_BodyTooLarge` is raised over the limit only. -/
theorem over_of_raised {n : ℕ} {b : Bool} {t : List (Sigma (Resp ω ε))} {text : String}
    {e' : Sigma (Resp ω (Raised ε))} (h : e' ∈ (limits limit detail).seen ⟨n, b⟩ t)
    (hraised : exception e' = some (.bodyTooLarge text)) :
    t.any isBody = true ∧ limit < (n + handed t : ℕ) := by
  induction t generalizing n b with
  | nil => cases h
  | cons e t ih =>
      rw [Filter.seen, next_limits, List.mem_cons] at h
      rw [handed_cons, List.any_cons, Bool.or_eq_true]
      rcases h with rfl | h
      · rcases shown_cases n b e with ⟨hshown, -⟩ | ⟨-, hbody, hover⟩
        · rw [hshown] at hraised
          exact absurd hraised ((shown_plain e).2.2 text)
        · exact ⟨.inl hbody, by omega⟩
      · obtain ⟨hbody, hover⟩ := ih h
        exact ⟨.inr hbody, by omega⟩

end Limits

/-! ## The runs behind the middleware -/

variable {json : String → Bytes} {settings : Settings} {app : App ω ε} {scope : Scope}

/-- The run as the application sees it. -/
def seen (settings : Settings) (t : List (Sigma (Resp ω ε))) : List (Sigma (Resp ω (Raised ε))) :=
  (limits (limit settings) (detail settings)).seen ⟨0, false⟩ t

/-- The answer 413. -/
def refusal (json : String → Bytes) (settings : Settings) : Asgi ω ε :=
  jsonResponse json 413 (detail settings)

/-- After a run the filter has counted it. -/
theorem after_start (t : List (Sigma (Resp ω ε))) :
    (limits (limit settings) (detail settings)).after ⟨0, false⟩ t =
      ⟨handed t, t.any (isStart ·.1)⟩ := by
  rw [after_limits, Nat.zero_add, Bool.false_or]

/-- The end of the application is kept, or its `_BodyTooLarge` is answered. -/
theorem conclude_cases (t : List (Sigma (Resp ω ε))) (ended : Except (Raised ε) Unit) :
    (conclude json settings (t.any (isStart ·.1)) ended : Asgi ω ε) = .ofResult ended ∨
      (∃ text, ended = .error (.bodyTooLarge text)) ∧ ¬ Started t ∧
        (conclude json settings (t.any (isStart ·.1)) ended : Asgi ω ε) = refusal json settings := by
  cases ended with
  | ok a => exact .inl rfl
  | error e =>
      cases e with
      | other e => exact .inl rfl
      | bodyTooLarge text =>
          by_cases hstarted : Started t
          · exact .inl (if_pos hstarted)
          · exact .inr ⟨⟨text, rfl⟩, hstarted, if_neg hstarted⟩

section Http

variable (hhttp : scope.type = .http) (hdeclared : declaredLength scope ≤ limit settings)
include hhttp hdeclared

/-- A request within the declared limit runs the application behind the filter. -/
theorem call_eq : call json settings app scope =
    ((app scope).filtered (limits (limit settings) (detail settings)) ⟨0, false⟩).bind fun ended =>
      conclude json settings ended.2.responseStarted ended.1 := by
  rw [call, if_neg (not_not_intro hhttp), if_neg (Int.not_lt.mpr hdeclared)]

/-- A run behind the middleware: the application is running, or what comes after it. -/
theorem call_after {t : List (Sigma (Resp ω ε))} {q : Asgi ω ε}
    (h : (call json settings app scope).After t q) :
    (∃ p, (app scope).After (seen settings t) p) ∨
      ∃ ended t₁ t₂, t = t₁ ++ t₂ ∧ (app scope).Ends (seen settings t₁) ended ∧
        (conclude json settings (t₁.any (isStart ·.1)) ended).After t₂ q := by
  rw [call_eq hhttp hdeclared, Prog.after_filtered_bind] at h
  rcases h with ⟨p, hp, -⟩ | ⟨ended, t₁, t₂, rfl, hended, hafter⟩
  · exact .inl ⟨p, hp⟩
  · refine .inr ⟨ended, t₁, t₂, rfl, hended, ?_⟩
    rwa [after_start] at hafter

/-- How such a request ends: as the application does, or with what is made of that. -/
theorem call_ends {t : List (Sigma (Resp ω ε))} {r : Except (Raised ε) Unit} :
    (call json settings app scope).Ends t r ↔
      ∃ ended t₁ t₂, t = t₁ ++ t₂ ∧ (app scope).Ends (seen settings t₁) ended ∧
        (conclude json settings (t₁.any (isStart ·.1)) ended).Ends t₂ r := by
  rw [call_eq hhttp hdeclared, Prog.ends_filtered_bind]
  simp only [after_start]
  rfl

end Http

/-- Without the middleware the application ends on the answers as they come. -/
theorem direct_ends {t : List (Sigma (Resp ω ε))} {r : Except (Raised ε) Unit} :
    (direct app scope).Ends t r ↔ (app scope).Ends (plain.seen () t) r := by
  rw [direct, Prog.ends_filtered_bind]
  constructor
  · rintro ⟨ended, t₁, t₂, rfl, hended, hr⟩
    obtain ⟨rfl, rfl⟩ := Prog.ofResult_ends_iff.mp hr
    rwa [List.append_nil]
  · intro h
    exact ⟨r, t, [], (List.append_nil t).symm, h, .nil _⟩

/-! ## What the application gets -/

/-- `_BodyTooLarge` is raised in `limited_receive` alone: who ends with it has received it. -/
def Honest (p : Prog (Resp ω (Raised ε)) (Raised ε) Unit) : Prop :=
  ∀ t text, p.Ends t (.error (.bodyTooLarge text)) →
    ∃ e ∈ t, exception e = some (.bodyTooLarge text)

/-- Who receives `_BodyTooLarge` was sent too much. -/
theorem over_of_mem_seen {t : List (Sigma (Resp ω ε))} {text : String}
    (h : ∃ e ∈ seen settings t, exception e = some (.bodyTooLarge text)) :
    Over (limit settings) t := by
  obtain ⟨e, he, hraised⟩ := h
  obtain ⟨hbody, hover⟩ := over_of_raised he hraised
  rw [Nat.zero_add] at hover
  exact ⟨hbody, hover⟩

/-- It is received exactly when too much was sent. -/
theorem refused_iff_over {t : List (Sigma (Resp ω ε))} :
    ⟨.receive, .error (.bodyTooLarge (detail settings))⟩ ∈ seen settings t ↔
      Over (limit settings) t := by
  constructor
  · intro h
    exact over_of_mem_seen ⟨_, h, rfl⟩
  · rintro ⟨hbody, hover⟩
    exact refused_of_over hbody (by rwa [Nat.zero_add])

/-- Below the limit everything is shown as it came. -/
theorem seen_eq_of_not_over {t : List (Sigma (Resp ω ε))} (h : ¬ Over (limit settings) t) :
    seen settings t = plain.seen () t := by
  refine seen_eq_plain fun hbody => ?_
  rw [Nat.zero_add]
  exact Int.not_lt.mp fun hover => h ⟨hbody, hover⟩

/-- A first part of what is within the limit is within it. -/
theorem not_over_append {t₁ t₂ : List (Sigma (Resp ω ε))} {n : ℤ} (h : ¬ Over n (t₁ ++ t₂)) :
    ¬ Over n t₁ := by
  rintro ⟨hbody, hover⟩
  refine h ⟨by rw [List.any_append, hbody, Bool.true_or], ?_⟩
  have hle : handed t₁ ≤ handed (t₁ ++ t₂) := by
    rw [handed_append]
    exact Nat.le_add_right _ _
  omega

/-- An honest application that ended with `_BodyTooLarge` was sent too much. -/
theorem over_of_ends (hhonest : Honest (app scope)) {t : List (Sigma (Resp ω ε))} {text : String}
    (h : (app scope).Ends (seen settings t) (.error (.bodyTooLarge text))) :
    Over (limit settings) t :=
  over_of_mem_seen (hhonest _ _ h)

/-- **An application gets no more than the limit and, below it, everything.** -/
theorem body_limited (hhonest : Honest (app scope)) (hhttp : scope.type = .http) :
    (∀ t q, (call json settings app scope).After t q →
      ∃ t₁ t₂ p, t = t₁ ++ t₂ ∧ (app scope).After (seen settings t₁) p ∧
        handed (seen settings t₁) ≤ (limit settings).toNat ∧
        (t₂ = [] ∨ (refusal json settings).After t₂ q ∧ ¬ Started t₁ ∧
          (Over (limit settings) t₁ ∨ t₁ = [] ∧ limit settings < declaredLength scope))) ∧
    (∀ t : List (Sigma (Resp ω ε)),
      ⟨.receive, .error (.bodyTooLarge (detail settings))⟩ ∈ seen settings t ↔
        Over (limit settings) t) ∧
    ∀ t r, declaredLength scope ≤ limit settings → ¬ Over (limit settings) t →
      ((call json settings app scope).Ends t r ↔ (direct app scope).Ends t r) := by
  refine ⟨fun t q h => ?_, fun t => refused_iff_over, fun t r hdeclared hover => ?_⟩
  · by_cases hdeclared : declaredLength scope ≤ limit settings
    · rcases call_after hhttp hdeclared h with ⟨p, hp⟩ | ⟨ended, t₁, t₂, rfl, hended, hafter⟩
      · exact ⟨t, [], p, (List.append_nil t).symm, hp, handed_seen_le 0 false t, .inl rfl⟩
      · refine ⟨t₁, t₂, _, rfl, hended, handed_seen_le 0 false t₁, ?_⟩
        rcases conclude_cases t₁ ended with hkept | ⟨⟨text, rfl⟩, hstarted, hrefused⟩
        · rw [hkept] at hafter
          exact .inl (Prog.ofResult_after_iff.mp hafter).1
        · rw [hrefused] at hafter
          exact .inr ⟨hafter, hstarted, .inl (over_of_ends hhonest hended)⟩
    · rw [call, if_neg (not_not_intro hhttp), if_pos (Int.not_le.mp hdeclared)] at h
      exact ⟨[], t, app scope, rfl, .nil _, Nat.zero_le _,
        .inr ⟨h, Bool.false_ne_true, .inr ⟨rfl, Int.not_le.mp hdeclared⟩⟩⟩
  · rw [call_ends hhttp hdeclared, direct_ends]
    constructor
    · rintro ⟨ended, t₁, t₂, rfl, hended, hr⟩
      rcases conclude_cases t₁ ended with hkept | ⟨⟨text, rfl⟩, -, -⟩
      · rw [hkept] at hr
        obtain ⟨rfl, rfl⟩ := Prog.ofResult_ends_iff.mp hr
        rw [List.append_nil] at hover ⊢
        rwa [← seen_eq_of_not_over hover]
      · exact absurd (over_of_ends hhonest hended) (not_over_append hover)
    · intro h
      rw [← seen_eq_of_not_over hover] at h
      refine ⟨r, t, [], (List.append_nil t).symm, h, ?_⟩
      rcases conclude_cases t r with hkept | ⟨⟨text, rfl⟩, -, -⟩
      · rw [hkept]
        exact Prog.ofResult_ends_iff.mpr ⟨rfl, rfl⟩
      · exact absurd (over_of_ends hhonest h) hover

/-- An application that reads one message and answers. -/
def answering : App Unit Unit := fun _ =>
  .op .receive fun
    | .error e => .throw e
    | .ok _ => .op (.send (.responseStart 200 [])) fun
        | .error e => .throw e
        | .ok _ => .op (.send (.responseBody [] false)) fun
            | .error e => .throw e
            | .ok _ => .pure ()

/-- The application that answers raises no `_BodyTooLarge` of its own. -/
theorem answering_honest (scope : Scope) : Honest (answering scope) := by
  intro t text h
  rcases Prog.op_after_iff.mp h with ⟨-, h⟩ | ⟨received, t, rfl, hreceived⟩
  · cases h
  · cases received with
    | error e =>
        obtain ⟨rfl, he⟩ := Prog.throw_after_iff.mp hreceived
        cases he
        exact ⟨_, List.mem_cons_self, rfl⟩
    | ok message =>
        rcases Prog.op_after_iff.mp hreceived with ⟨-, h⟩ | ⟨started, t, rfl, hstarted⟩
        · cases h
        · cases started with
          | error e =>
              obtain ⟨rfl, he⟩ := Prog.throw_after_iff.mp hstarted
              cases he
              exact ⟨_, List.mem_cons_of_mem _ List.mem_cons_self, rfl⟩
          | ok a =>
              rcases Prog.op_after_iff.mp hstarted with ⟨-, h⟩ | ⟨sent, t, rfl, hsent⟩
              · cases h
              · cases sent with
                | error e =>
                    obtain ⟨rfl, he⟩ := Prog.throw_after_iff.mp hsent
                    cases he
                    exact ⟨_, List.mem_cons_of_mem _ (List.mem_cons_of_mem _ List.mem_cons_self), rfl⟩
                | ok a => cases (Prog.pure_after_iff.mp hsent).2

/-- A body that comes in one message. -/
def sentWhole (body : Bytes) : Sigma (Resp ω ε) := ⟨.receive, .ok (.request (some body) false)⟩

/-- A body that is too long is not shown. -/
theorem seen_sentWhole {body : Bytes} (h : limit settings < (body.length : ℤ)) :
    seen settings [(sentWhole body : Sigma (Resp ω ε))] =
      [⟨.receive, .error (.bodyTooLarge (detail settings))⟩] := by
  have hover : limit settings < ((0 + body.length : ℕ) : ℤ) := by rwa [Nat.zero_add]
  have hshown : limitedReceive (limit settings) (detail settings) 0
      (.ok (.request (some body) false) : Except ε (Message ω)) =
        .error (.bodyTooLarge (detail settings)) := if_pos hover
  rw [← hshown]
  rfl

/-- A body that is too long is over the limit, whatever follows. -/
theorem over_sentWhole {body : Bytes} {t : List (Sigma (Resp ω ε))}
    (h : limit settings < (body.length : ℤ)) : Over (limit settings) (sentWhole body :: t) := by
  have hhanded : handed (sentWhole body :: t) = body.length + handed t := rfl
  refine ⟨rfl, ?_⟩
  rw [hhanded]
  omega

/-- One byte more than a limit of 51 MB allows. -/
def overlong : Bytes := List.replicate 53477377 1

/-- The body is longer than the limit. -/
theorem limit_lt_overlong : limit ⟨50⟩ < (overlong.length : ℤ) := by
  rw [overlong, List.length_replicate]
  decide

/-- An answer 413 with an empty body is sent. -/
def refused : List (Sigma (Resp Unit Unit)) :=
  [⟨.send (.responseStart 413 [("content-length".toUTF8.toList, "0".toUTF8.toList),
      ("content-type".toUTF8.toList, "application/json".toUTF8.toList)]), .ok ()⟩,
    ⟨.send (.responseBody [] false), .ok ()⟩]

/-- With a limit of 51 MB, a body of one byte that says nothing of its length is answered as without
the middleware. A body of one byte too many is answered 413: the application gets the exception and
none of the bytes. -/
theorem body_limited_answering :
    (call (fun _ => []) ⟨50⟩ answering ⟨.http, none⟩).Ends
        [⟨.receive, .ok (.request (some [1]) false)⟩, ⟨.send (.responseStart 200 []), .ok ()⟩,
          ⟨.send (.responseBody [] false), .ok ()⟩] (.ok ()) ∧
      (call (fun _ => []) ⟨50⟩ answering ⟨.http, none⟩).Ends (sentWhole overlong :: refused) (.ok ()) ∧
      (⟨.receive, .error (.bodyTooLarge (detail ⟨50⟩))⟩ ∈ seen ⟨50⟩ (sentWhole overlong :: refused)) ∧
      ∃ t₁ t₂, sentWhole overlong :: refused = t₁ ++ t₂ ∧ handed (seen ⟨50⟩ t₁) ≤ 53477376 ∧
        (t₂ = [] ∨ ¬ Started t₁) := by
  have hlimited := @body_limited Unit Unit (fun _ => []) ⟨50⟩ answering ⟨.http, none⟩
    (answering_honest ⟨.http, none⟩) rfl
  have hended : (call (fun _ => []) ⟨50⟩ answering ⟨.http, none⟩).Ends (sentWhole overlong :: refused)
      (.ok ()) := by
    refine (call_ends rfl (by decide)).mpr
      ⟨.error (.bodyTooLarge (detail ⟨50⟩)), [sentWhole overlong], refused, rfl, ?_, ?_⟩
    · rw [seen_sentWhole limit_lt_overlong]
      exact .cons _ (.nil _)
    · exact .cons _ (.cons _ (.nil _))
  refine ⟨(hlimited.2.2 _ _ (by decide) ?_).mpr ?_, hended, (hlimited.2.1 _).mpr (over_sentWhole limit_lt_overlong), ?_⟩
  · rintro ⟨-, hover⟩
    exact absurd hover (by decide)
  · exact direct_ends.mpr (.cons _ (.cons _ (.cons _ (.nil _))))
  · obtain ⟨t₁, t₂, p, heq, -, hhanded, hsent⟩ := hlimited.1 _ _ hended
    exact ⟨t₁, t₂, heq, hhanded, hsent.imp_right fun h => h.2.1⟩

/-! ## What is sent -/

/-- Where a response stands. -/
inductive Phase where
  | idle
  | started
  | finished
  deriving DecidableEq

/-- The order of a response: it is started once, and its body comes after that, to the last part. -/
def Phase.next : Phase → Command ω → Option Phase
  | .idle, .send (.responseStart _ _) => some .started
  | .started, .send (.responseBody _ more) => some (if more then .started else .finished)
  | _, .send (.responseStart _ _) => none
  | _, .send (.responseBody _ _) => none
  | phase, _ => some phase

/-- Where the response stands after these commands; `none` if the order was broken. -/
def phase (cs : List (Command ω)) : Option Phase := cs.foldlM Phase.next .idle

/-- In every run the response is sent in order, and a run that ends well has sent all of it. -/
structure Conforms (p : Prog (Resp ω E) (Raised ε) Unit) : Prop where
  order : ∀ t q, p.After t q → (phase (t.map Sigma.fst)).isSome = true
  complete : ∀ t, p.Ends t (.ok ()) → phase (t.map Sigma.fst) = some .finished

/-- Commands that start no response need not be looked at again. -/
theorem phase_append {cs₁ cs₂ : List (Command ω)} (h : phase cs₁ = some .idle) :
    phase (cs₁ ++ cs₂) = phase cs₂ := by
  rw [phase, List.foldlM_append]
  change phase cs₁ >>= _ = _
  rw [h]
  rfl

/-- Nothing but a start leaves the beginning of a response. -/
theorem next_idle {c : Command ω} (h : isStart c = false) :
    Phase.idle.next c = some .idle ∨ Phase.idle.next c = none := by
  cases c with
  | receive => exact .inl rfl
  | send message =>
      cases message with
      | request body more => exact .inl rfl
      | responseStart status headers => cases h
      | responseBody body more => exact .inr rfl
      | other message => exact .inl rfl

/-- Until the response is started there is nothing of it. -/
theorem phase_of_not_started {cs : List (Command ω)} (h : cs.any isStart = false)
    (hphase : (phase cs).isSome = true) : phase cs = some .idle := by
  induction cs with
  | nil => rfl
  | cons c cs ih =>
      rw [List.any_cons, Bool.or_eq_false_iff] at h
      have hcons : phase (c :: cs) = Phase.idle.next c >>= fun phase => cs.foldlM Phase.next phase :=
        List.foldlM_cons ..
      rcases next_idle h.1 with hc | hc
      · rw [hc] at hcons
        rw [hcons] at hphase ⊢
        exact ih h.2 hphase
      · rw [hcons, hc] at hphase
        cases hphase

/-- Each command keeps the order, whatever the answers were, and the response is complete where the
program ends well. -/
def InOrder : Phase → Prog (Resp ω E) (Raised ε) Unit → Prop
  | phase, .pure _ => phase = .finished
  | _, .throw _ => True
  | phase, .op c next => ∃ phase', phase.next c = some phase' ∧ ∀ r, InOrder phase' (next r)

/-- A program in order stays in order along its runs. -/
theorem InOrder.run {p q : Prog (Resp ω E) (Raised ε) Unit} {t : List (Sigma (Resp ω E))}
    (hrun : p.After t q) : ∀ {phase : Phase}, InOrder phase p →
      ∃ phase', (t.map Sigma.fst).foldlM Phase.next phase = some phase' ∧ InOrder phase' q := by
  induction hrun with
  | nil p => exact fun h => ⟨_, rfl, h⟩
  | cons r _ ih =>
      rintro phase ⟨phase', hnext, h⟩
      rw [List.map_cons, List.foldlM_cons, hnext]
      exact ih (h r)

/-- So its responses are in the order of ASGI. -/
theorem InOrder.conforms {p : Prog (Resp ω E) (Raised ε) Unit} (h : InOrder .idle p) :
    Conforms p := by
  constructor
  · intro t q hrun
    obtain ⟨phase', hphase, -⟩ := InOrder.run hrun h
    exact Option.isSome_of_eq_some hphase
  · intro t hrun
    obtain ⟨phase', hphase, hfinished⟩ := InOrder.run hrun h
    rw [← (hfinished : phase' = .finished)]
    exact hphase

/-- A response that is sent at once is sent in order. -/
theorem jsonResponse_conforms (status : ℕ) (detail : String) :
    Conforms (jsonResponse json status detail : Asgi ω ε) := by
  refine InOrder.conforms ⟨.started, rfl, fun started => ?_⟩
  cases started with
  | error e => exact trivial
  | ok a =>
      refine ⟨.finished, rfl, fun sent => ?_⟩
      cases sent with
      | error e => exact trivial
      | ok a => rfl

/-- What follows a filtered program, if it only follows where no response was started. -/
theorem conforms_bind {σ : Type} {f : Filter (Resp ω ε) (Resp ω (Raised ε)) σ} {s : σ}
    {p : Prog (Resp ω (Raised ε)) (Raised ε) Unit} {g : Except (Raised ε) Unit × σ → Asgi ω ε}
    (h : Conforms p) (hg : ∀ t ended, p.Ends (f.seen s t) ended →
      g (ended, f.after s t) = .ofResult ended ∨
        phase (t.map Sigma.fst) = some .idle ∧ Conforms (g (ended, f.after s t))) :
    Conforms ((p.filtered f s).bind g) := by
  constructor
  · intro t q hrun
    rcases Prog.after_filtered_bind.mp hrun with ⟨p', hp', -⟩ | ⟨ended, t₁, t₂, rfl, hended, hafter⟩
    · have horder := h.order _ _ hp'
      rwa [Filter.map_fst_seen] at horder
    · rcases hg t₁ ended hended with hkept | ⟨hidle, hconforms⟩
      · rw [hkept] at hafter
        obtain ⟨rfl, -⟩ := Prog.ofResult_after_iff.mp hafter
        have horder := h.order _ _ hended
        rwa [Filter.map_fst_seen, ← List.append_nil t₁] at horder
      · rw [List.map_append, phase_append hidle]
        exact hconforms.order _ _ hafter
  · intro t hrun
    obtain ⟨ended, t₁, t₂, rfl, hended, hr⟩ := Prog.ends_filtered_bind.mp hrun
    rcases hg t₁ ended hended with hkept | ⟨hidle, hconforms⟩
    · rw [hkept] at hr
      obtain ⟨rfl, rfl⟩ := Prog.ofResult_ends_iff.mp hr
      have hcomplete := h.complete _ hended
      rwa [Filter.map_fst_seen, ← List.append_nil t₁] at hcomplete
    · rw [List.map_append, phase_append hidle]
      exact hconforms.complete _ hr

/-- **The middleware keeps the order of a response.** -/
theorem keeps_asgi (h : Conforms (app scope)) : Conforms (call json settings app scope) := by
  unfold call
  split
  · exact conforms_bind h fun t ended _ => .inl rfl
  · split
    · exact jsonResponse_conforms 413 (detail settings)
    · refine conforms_bind h fun t ended hended => ?_
      rw [after_start]
      rcases conclude_cases t ended with hkept | ⟨-, hstarted, hrefused⟩
      · exact .inl hkept
      · refine .inr ⟨phase_of_not_started ?_ ?_, ?_⟩
        · rw [List.any_map]
          exact Bool.not_eq_true _ ▸ hstarted
        · have horder := h.order _ _ hended
          rwa [Filter.map_fst_seen] at horder
        · rw [hrefused]
          exact jsonResponse_conforms 413 (detail settings)

/-- The application that answers conforms. -/
theorem answering_conforms (scope : Scope) : Conforms (answering scope) := by
  refine InOrder.conforms ⟨.idle, rfl, fun received => ?_⟩
  cases received with
  | error e => exact trivial
  | ok message =>
      refine ⟨.started, rfl, fun started => ?_⟩
      cases started with
      | error e => exact trivial
      | ok a =>
          refine ⟨.finished, rfl, fun sent => ?_⟩
          cases sent with
          | error e => exact trivial
          | ok a => rfl

/-- It conforms behind the middleware too. -/
theorem keeps_asgi_answering :
    Conforms (call (fun _ => []) ⟨50⟩ answering ⟨.http, none⟩) :=
  keeps_asgi (answering_conforms ⟨.http, none⟩)

end SyncBack.BodySizeLimit
