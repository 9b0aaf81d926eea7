import Mathlib.Data.List.Basic
import Mathlib.Order.Basic
import Mathlib.Order.Nat

/-!
# Loops of attempts

`for attempt in range(max_retries + 1)`: an attempt gets an answer, and the answer decides the
result of the loop or asks for another attempt after a pause. What the answers are and how long the
pauses last is a parameter, and so are the ways in which a pause can go wrong: its length cannot be
computed, or the pause itself is refused.

`run_sent_le` bounds the attempts, `loop_ends` says how a loop can end, and `run_sound_iff` says
when its result is the one that the answers decide.
-/

namespace Retries

/-- What a loop does to the outside: an attempt, with the answer to it, or a pause. -/
inductive Event (ι δ : Type) where
  | sent (answer : ι)
  | paused (delay : δ)
  deriving DecidableEq

/-- The attempts among the events. -/
def Event.isSent {ι δ : Type} : Event ι δ → Bool
  | .sent _ => true
  | .paused _ => false

/-- The parameters of a loop: answers `ι`, results `ρ`, pauses `δ`. -/
structure Policy (ι ρ δ : Type) where
  /-- The result that an answer decides; without one the attempt can be repeated. -/
  verdict : ι → Option ρ
  /-- The result of the last attempt when its answer decides nothing. -/
  exhausted : ℕ → ι → ρ
  /-- The pause before the next attempt, or the result when there is none. -/
  delay : ℕ → ι → Except ρ δ
  /-- The result when the pause is refused. -/
  refusal : δ → Option ρ
  /-- The result of the code after the loop. -/
  unreachable : ρ

namespace Policy

variable {ι ρ δ : Type} (P : Policy ι ρ δ) (maxRetries : ℕ) (answers : ℕ → ι)

/-- The loop over the given numbers of attempts: its events and its result. -/
def loop : List ℕ → List (Event ι δ) × ρ
  | [] => ([], P.unreachable)
  | attempt :: attempts =>
      match P.verdict (answers attempt) with
      | some result => ([.sent (answers attempt)], result)
      | none =>
          if attempt = maxRetries then
            ([.sent (answers attempt)], P.exhausted attempt (answers attempt))
          else
            match P.delay attempt (answers attempt) with
            | .error result => ([.sent (answers attempt)], result)
            | .ok delay =>
                match P.refusal delay with
                | some result => ([.sent (answers attempt), .paused delay], result)
                | none =>
                    let rest := loop attempts
                    (.sent (answers attempt) :: .paused delay :: rest.1, rest.2)

/-- The whole loop. -/
def run : List (Event ι δ) × ρ := P.loop maxRetries answers (List.range (maxRetries + 1))

/-- What the answers to the attempts decide: the result of the first that decides one, else that of
the last attempt. -/
def decisionOf (attempts : List ℕ) : ρ :=
  (attempts.findSome? fun attempt => P.verdict (answers attempt)).getD
    (P.exhausted maxRetries (answers maxRetries))

/-- What the answers of the whole loop decide. -/
def decision : ρ := P.decisionOf maxRetries answers (List.range (maxRetries + 1))

/-! ## How many attempts -/

/-- A loop sends once for each attempt at most. -/
theorem loop_sent_le (attempts : List ℕ) :
    ((P.loop maxRetries answers attempts).1.countP Event.isSent) ≤ attempts.length := by
  induction attempts with
  | nil => simp [loop]
  | cons attempt attempts ih =>
      simp only [loop]
      split
      · simp [Event.isSent]
      · split
        · simp [Event.isSent]
        · split
          · simp [Event.isSent]
          · split
            · simp [List.countP_cons, Event.isSent]
            · simpa [List.countP_cons, Event.isSent] using ih

/-- A run sends within its budget. -/
theorem run_sent_le :
    ((P.run maxRetries answers).1.countP Event.isSent) ≤ maxRetries + 1 := by
  have h := P.loop_sent_le maxRetries answers (List.range (maxRetries + 1))
  rwa [List.length_range] at h

/-! ## How a loop ends -/

/-- A loop ends with an answer that decides its result, or with one of the failures. -/
theorem loop_ends (attempts : List ℕ) :
    (∃ before attempt, (P.loop maxRetries answers attempts).1 = before ++ [.sent (answers attempt)] ∧
        P.verdict (answers attempt) = some (P.loop maxRetries answers attempts).2) ∨
      (∃ attempt, (P.loop maxRetries answers attempts).2 = P.exhausted attempt (answers attempt)) ∨
      (∃ attempt, P.delay attempt (answers attempt) =
        .error (P.loop maxRetries answers attempts).2) ∨
      (∃ delay, P.refusal delay = some (P.loop maxRetries answers attempts).2) ∨
      (P.loop maxRetries answers attempts).2 = P.unreachable := by
  induction attempts with
  | nil => exact .inr (.inr (.inr (.inr rfl)))
  | cons attempt attempts ih =>
      simp only [loop]
      split
      · rename_i hverdict
        exact .inl ⟨[], attempt, rfl, hverdict⟩
      · split
        · exact .inr (.inl ⟨attempt, rfl⟩)
        · split
          · rename_i hdelay
            exact .inr (.inr (.inl ⟨attempt, hdelay⟩))
          · split
            · rename_i hrefusal
              exact .inr (.inr (.inr (.inl ⟨_, hrefusal⟩)))
            · obtain ⟨before, last, hevents, hverdict⟩ | hfailure := ih
              · exact .inl ⟨.sent (answers attempt) :: .paused _ :: before, last,
                  by rw [hevents]; rfl, hverdict⟩
              · exact .inr hfailure

/-! ## When the answers decide the result -/

section

variable (Valid : δ → Prop)

/-- The loop does what it is for: the answers decide, and every pause is a valid one. -/
def Sound (decision : ρ) (outcome : List (Event ι δ) × ρ) : Prop :=
  outcome.2 = decision ∧ ∀ delay, .paused delay ∈ outcome.1 → Valid delay

/-- The pause after the attempt can be computed and is valid. -/
def Pausable (attempt : ℕ) (answer : ι) : Prop :=
  ∃ delay, P.delay attempt answer = .ok delay ∧ Valid delay

variable {P} {Valid}

/-- A result that nothing gives is not the decision. -/
theorem decisionOf_ne {result : ρ} (hverdict : ∀ answer, P.verdict answer ≠ some result)
    (hlast : ∀ attempt answer, P.exhausted attempt answer ≠ result) (attempts : List ℕ) :
    P.decisionOf maxRetries answers attempts ≠ result := by
  unfold decisionOf
  cases hfind : attempts.findSome? fun attempt => P.verdict (answers attempt) with
  | none => exact hlast maxRetries (answers maxRetries)
  | some decided =>
      obtain ⟨attempt, -, hattempt⟩ := List.exists_of_findSome?_eq_some hfind
      intro heq
      exact hverdict (answers attempt) (hattempt.trans (congrArg some heq))

/-- A delay makes a pause if it is valid. -/
theorem pausable_iff_of_ok {attempt : ℕ} {answer : ι} {delay : δ}
    (h : P.delay attempt answer = .ok delay) : P.Pausable Valid attempt answer ↔ Valid delay := by
  constructor
  · rintro ⟨other, hok, hother⟩
    obtain rfl := Except.ok.inj (h.symm.trans hok)
    exact hother
  · exact fun hvalid => ⟨delay, h, hvalid⟩

/-- Without a delay there is no pause. -/
theorem not_pausable_of_error {attempt : ℕ} {answer : ι} {result : ρ}
    (h : P.delay attempt answer = .error result) : ¬ P.Pausable Valid attempt answer := by
  rintro ⟨delay, hok, -⟩
  rw [h] at hok
  cases hok

/-- An attempt that is repeated: everything depends on its pause, and on the attempts after it. -/
theorem sound_cons_iff (hrefusal : ∀ delay, Valid delay → P.refusal delay = none)
    (hdelay : ∀ attempt answer result, P.delay attempt answer = .error result →
      (∀ other, P.verdict other ≠ some result) ∧ ∀ n other, P.exhausted n other ≠ result)
    {attempt : ℕ} (attempts : List ℕ) (hne : attempt ≠ maxRetries)
    (hverdict : P.verdict (answers attempt) = none) :
    Sound Valid (P.decisionOf maxRetries answers (attempt :: attempts))
        (P.loop maxRetries answers (attempt :: attempts)) ↔
      P.Pausable Valid attempt (answers attempt) ∧
        Sound Valid (P.decisionOf maxRetries answers attempts)
          (P.loop maxRetries answers attempts) := by
  have hdecision : P.decisionOf maxRetries answers (attempt :: attempts) =
      P.decisionOf maxRetries answers attempts := by
    simp [decisionOf, hverdict]
  rw [hdecision]
  cases hdelayed : P.delay attempt (answers attempt) with
  | error result =>
      refine iff_of_false (fun hsound => ?_) fun h => not_pausable_of_error hdelayed h.1
      have hresult := hsound.1
      simp only [loop, hverdict, if_neg hne, hdelayed] at hresult
      obtain ⟨hdecided, hexhausted⟩ := hdelay _ _ _ hdelayed
      exact decisionOf_ne _ _ hdecided hexhausted _ hresult.symm
  | ok delay =>
      rw [pausable_iff_of_ok hdelayed]
      cases hrefused : P.refusal delay with
      | some result =>
          have hinvalid : ¬ Valid delay := by
            intro h
            rw [hrefusal delay h] at hrefused
            cases hrefused
          refine iff_of_false (fun hsound => hinvalid (hsound.2 delay ?_)) fun h => hinvalid h.1
          simp [loop, hverdict, if_neg hne, hdelayed, hrefused]
      | none => simp [Sound, loop, hverdict, if_neg hne, hdelayed, hrefused, and_left_comm]

/-- The loop over the attempts from one on does its work exactly when every pause that it comes to
can be made. -/
theorem loop_sound_iff (hrefusal : ∀ delay, Valid delay → P.refusal delay = none)
    (hdelay : ∀ attempt answer result, P.delay attempt answer = .error result →
      (∀ other, P.verdict other ≠ some result) ∧ ∀ n other, P.exhausted n other ≠ result)
    (left first : ℕ) (hlast : first + left = maxRetries) :
    Sound Valid (P.decisionOf maxRetries answers (List.range' first (left + 1)))
        (P.loop maxRetries answers (List.range' first (left + 1))) ↔
      ∀ attempt, first ≤ attempt → attempt < maxRetries →
        (∀ earlier, first ≤ earlier → earlier ≤ attempt → P.verdict (answers earlier) = none) →
        P.Pausable Valid attempt (answers attempt) := by
  induction left generalizing first with
  | zero =>
      have hfirst : first = maxRetries := hlast
      refine iff_of_true ?_ fun attempt hle hlt _ => by omega
      subst hfirst
      cases hverdict : P.verdict (answers first) with
      | some result => simp [Sound, decisionOf, loop, hverdict]
      | none => simp [Sound, decisionOf, loop, hverdict]
  | succ left ih =>
      have hlt : first < maxRetries := by omega
      rw [List.range'_succ]
      cases hverdict : P.verdict (answers first) with
      | some result =>
          refine iff_of_true ?_ fun attempt hle _ hnone => ?_
          · simp [Sound, decisionOf, loop, hverdict]
          · have hfirst := hnone first le_rfl hle
            rw [hverdict] at hfirst
            cases hfirst
      | none =>
          rw [sound_cons_iff _ _ hrefusal hdelay _ hlt.ne hverdict, ih (first + 1) (by omega)]
          constructor
          · rintro ⟨hfirst, hlater⟩ attempt hge hltn hnone
            obtain rfl | hgt := hge.eq_or_lt
            · exact hfirst
            · exact hlater attempt hgt hltn fun earlier hle =>
                hnone earlier (Nat.le_of_succ_le hle)
          · intro hall
            refine ⟨hall first le_rfl hlt ?_, fun attempt hge hltn hnone => ?_⟩
            · intro earlier hge hle
              rwa [le_antisymm hle hge]
            · refine hall attempt (Nat.le_of_succ_le hge) hltn fun earlier hle hea => ?_
              obtain rfl | hgt := hle.eq_or_lt
              · exact hverdict
              · exact hnone earlier hgt hea

/-- The loop does its work exactly when every pause that it comes to can be made. -/
theorem run_sound_iff (hrefusal : ∀ delay, Valid delay → P.refusal delay = none)
    (hdelay : ∀ attempt answer result, P.delay attempt answer = .error result →
      (∀ other, P.verdict other ≠ some result) ∧ ∀ n other, P.exhausted n other ≠ result) :
    Sound Valid (P.decision maxRetries answers) (P.run maxRetries answers) ↔
      ∀ attempt < maxRetries, (∀ earlier ≤ attempt, P.verdict (answers earlier) = none) →
        P.Pausable Valid attempt (answers attempt) := by
  have h := loop_sound_iff maxRetries answers hrefusal hdelay maxRetries 0 (Nat.zero_add _)
  rw [← List.range_eq_range'] at h
  simp only [Nat.zero_le, true_implies] at h
  exact h

end

end Policy

end Retries
