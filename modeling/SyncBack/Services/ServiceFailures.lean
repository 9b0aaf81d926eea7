import SyncBack.Services.PublishingServices

/-!
# How the operations of the services fail

Every call of a port may raise. What an operation leaves behind then can be read off the calls of its
history: whether anything was committed (`commits`), and whether something was written after the last
commit or rollback (`unsaved`). After the commit only the events are left to be sent (`saved`), and a
call that raises there comes too late to undo anything.

An operation is one transaction. Up to its first write it is `Idle`, up to its commit `Open`; it ends
`Ended` or with an exception, `Left`. Each lemma says with which exceptions of the domain (`D`) a part
of an operation ends, beside those that its calls raise.
-/

namespace SyncBack.Publishing

open Effects

/-! ## What a history says -/

/-- The call changes rows of the open transaction. -/
def Call.writes : Call → Bool
  | .documentsUpdateStatus _ _ | .documentsCompareAndSetStatus _ _ _ _ | .documentsSetCurrentJob _ _
  | .documentsCompareAndIncrementReviewVersion _ _ | .suggestionsResetStatus _
  | .suggestionsResetToPending _ _ | .suggestionsBulkUpdateStatus _ | .suggestionsBulkAcceptAll _ _
  | .suggestionsBulkRejectAll _ _ | .jobsCreateForDocument _ _ _ | .jobsUpdateStatus _ _ _ _
  | .jobsSetCeleryTaskId _ _ => true
  | _ => false

/-- The call sends what is committed to others, or ends the transaction. -/
def Call.tells : Call → Bool
  | .projectsGetById _ | .publish _ | .revoke _ | .rollback => true
  | _ => false

/-- An `Exception` of the call is passed on. -/
def Call.essential : Call → Bool
  | .enqueue _ _ | .revoke _ | .publish _ | .rollback | .exportAndSave _ => false
  | _ => true

/-- A transaction was committed; the export commits the one that it shares. -/
def commits : Sigma Answer → Bool
  | ⟨.commit, .ok _⟩ | ⟨.exportAndSave _, .ok _⟩ => true
  | _ => false

/-- The transaction ends. -/
def closes : Sigma Answer → Bool
  | ⟨.rollback, _⟩ => true
  | e => commits e

/-- Something was written after the last commit or rollback. -/
def unsaved : History Answer → Bool
  | [] => false
  | e :: es => !closes e && (e.1.writes || unsaved es)

/-- Nothing but events was sent after the last commit. -/
def saved : History Answer → Bool
  | [] => false
  | e :: es => commits e || e.1.tells && saved es

/-- A call whose exceptions are passed on has raised one. -/
def Broken (es : History Answer) : Prop :=
  ∃ (c : Call) (text : String), c.essential = true ∧ ⟨c, .error (.exception text)⟩ ∈ es

/-- The exception was raised after the commit, by a call that sends events. -/
def Lost (e : ServiceError) (es : History Answer) : Prop :=
  saved es = true ∧ ∃ (c : Call) (r : Raised), c.tells = true ∧ e = .raised r ∧ ⟨c, .error r⟩ ∈ es

/-- Where an exception comes from: from a check, one of `D`, or from a call. -/
def Explained (D : DomainError → Prop) (es : History Answer) : ServiceError → Prop
  | .domain d => D d ∧ ¬ Broken es
  | .raised (.exception text) =>
      ∃ c : Call, c.essential = true ∧ ⟨c, .error (.exception text)⟩ ∈ es
  | .raised .baseException => ∃ c : Call, ⟨c, .error .baseException⟩ ∈ es

section history

variable {c : Call} {r : Answer c} {es : History Answer} {e : Sigma Answer}
  {D D' : DomainError → Prop} {error : ServiceError}

/-- A call that is passed on and is no commit commits nothing. -/
theorem commits_eq_false (hc : c.essential = true) (hcommit : c ≠ .commit) :
    commits ⟨c, r⟩ = false := by
  cases c <;> first | rfl | exact absurd rfl hcommit | cases hc

/-- A call without writes leaves what is unsaved as it is. -/
theorem unsaved_of_not_writes (hc : c.writes = false) (hes : unsaved es = false) :
    unsaved (⟨c, r⟩ :: es) = false := by
  rw [unsaved, hc, hes, Bool.or_self, Bool.and_false]

/-- A commit ends the transaction. -/
theorem closes_of_commits (h : commits e = true) : closes e = true := by
  unfold closes
  split
  · rfl
  · exact h

/-- A call that does not commit adds no commit. -/
theorem any_commits_cons (h : commits e = false) : (e :: es).any commits = es.any commits := by
  rw [List.any_cons, h, Bool.false_or]

/-- Nothing is unsaved where only events were sent after a commit. -/
theorem unsaved_of_saved : ∀ {es : History Answer}, saved es = true → unsaved es = false
  | [], h => by cases h
  | ⟨c, r⟩ :: es, h => by
      rw [saved, Bool.or_eq_true, Bool.and_eq_true] at h
      rcases h with h | ⟨hc, hes⟩
      · rw [unsaved, closes_of_commits h, Bool.not_true, Bool.false_and]
      · refine unsaved_of_not_writes ?_ (unsaved_of_saved hes)
        cases c <;> first | rfl | cases hc

/-- Sending events after a commit leaves everything saved. -/
theorem saved_cons (hc : c.tells = true) (hes : saved es = true) : saved (⟨c, r⟩ :: es) = true := by
  rw [saved, hes, Bool.and_true, Bool.or_eq_true]
  exact .inr hc

/-- An answer that is no exception breaks nothing. -/
theorem not_broken_ok {value : c.Value} (h : ¬ Broken es) : ¬ Broken (⟨c, .ok value⟩ :: es) := by
  rintro ⟨c', text, hc, hmem⟩
  rcases List.mem_cons.mp hmem with heq | hmem
  · cases heq
  · exact h ⟨c', text, hc, hmem⟩

/-- An exception that is not passed on breaks nothing. -/
theorem not_broken_of_not_essential (hc : c.essential = false) (h : ¬ Broken es) :
    ¬ Broken (⟨c, r⟩ :: es) := by
  rintro ⟨c', text, hc', hmem⟩
  rcases List.mem_cons.mp hmem with heq | hmem
  · obtain rfl : c' = c := congrArg Sigma.fst heq
    rw [hc] at hc'
    cases hc'
  · exact h ⟨c', text, hc', hmem⟩

/-- The exception of a call explains itself. -/
theorem explained_of_call {raised : Raised} (hc : c.essential = true) :
    Explained D (⟨c, .error raised⟩ :: es) (.raised raised) := by
  cases raised with
  | exception text => exact ⟨c, hc, List.mem_cons_self⟩
  | baseException => exact ⟨c, List.mem_cons_self⟩

/-- A rollback, or another call that is not passed on, changes nothing about it. -/
theorem Explained.cons (h : Explained D es error) (hc : c.essential = false) :
    Explained D (⟨c, r⟩ :: es) error := by
  cases error with
  | domain d => exact ⟨h.1, not_broken_of_not_essential hc h.2⟩
  | raised raised =>
      cases raised with
      | exception text =>
          obtain ⟨c', hc', hmem⟩ := h
          exact ⟨c', hc', List.mem_cons_of_mem _ hmem⟩
      | baseException =>
          obtain ⟨c', hmem⟩ := h
          exact ⟨c', List.mem_cons_of_mem _ hmem⟩

/-- More checks may be named. -/
theorem Explained.mono (h : Explained D es error) (hD : ∀ d, D d → D' d) : Explained D' es error := by
  cases error with
  | domain d => exact ⟨hD d h.1, h.2⟩
  | raised raised =>
      cases raised with
      | exception => exact h
      | baseException => exact h

/-- A check raises before or without a commit: its exception is never `Lost`. -/
theorem not_lost_domain {d : DomainError} : ¬ Lost (.domain d) es := by
  rintro ⟨-, c, r, -, h, -⟩
  cases h

end history

/-! ## Conditions on a transaction -/

/-- No transaction of the operation is committed, unless `b` says that one was before; no call has
failed. -/
def Open (b : Bool) (es : History Answer) : Prop :=
  (es.any commits = true → b = true) ∧ ¬ Broken es

/-- And nothing is written yet. -/
def Idle (b : Bool) (es : History Answer) : Prop := Open b es ∧ unsaved es = false

/-- Everything is committed. -/
def Told (es : History Answer) : Prop := saved es = true ∧ ¬ Broken es

/-- The end of an operation. -/
def Ended (b : Bool) (es : History Answer) : Prop :=
  unsaved es = false ∧ ¬ Broken es ∧ (es.any commits = true → b = true ∨ saved es = true)

/-- An exception in a transaction: it is not committed, unless the exception came after its commit. -/
def Raises (b : Bool) (D : DomainError → Prop) (e : ServiceError) (es : History Answer) : Prop :=
  Explained D es e ∧ (es.any commits = true → b = true ∨ Lost e es)

/-- An exception that has left the transaction: nothing unsaved is left behind. -/
def Left (b : Bool) (D : DomainError → Prop) (e : ServiceError) (es : History Answer) : Prop :=
  Raises b D e es ∧ unsaved es = false

/-- From `P` the program ends with `Q` or raises with `E`. -/
def Runs {α : Type} (P : History Answer → Prop) (x : ServiceM α) (Q : α → History Answer → Prop)
    (E : ServiceError → History Answer → Prop) : Prop :=
  Stateful.Triple (fun _ => True) (fun _ => True) (fun _ => P) x (fun a _ => Q a) fun e _ => E e

/-- A part of a transaction before its first write. -/
abbrev Reads {α : Type} (b : Bool) (D : DomainError → Prop) (x : ServiceM α) : Prop :=
  Runs (Idle b) x (fun _ => Idle b) (Raises b D)

variable {α β : Type} {b : Bool} {D D' : DomainError → Prop} {P P' : History Answer → Prop}
  {Q Q' : α → History Answer → Prop} {E E' : ServiceError → History Answer → Prop}
  {es : History Answer} {e : ServiceError}

/-- A transaction without writes is open. -/
theorem Idle.open (h : Idle b es) : Open b es := h.1

/-- Nothing of it is unsaved when it ends. -/
theorem Idle.ended (h : Idle b es) : Ended b es := ⟨h.2, h.1.2, fun hany => .inl (h.1.1 hany)⟩

/-- So it is when everything is committed. -/
theorem Told.ended (h : Told es) : Ended b es := ⟨unsaved_of_saved h.1, h.2, fun _ => .inr h.1⟩

/-- What has ended is the beginning of another transaction. -/
theorem Ended.idle (h : Ended b es) : Idle true es := ⟨⟨fun _ => rfl, h.2.1⟩, h.1⟩

/-- An exception of a check leaves an idle transaction. -/
theorem Left.idle {d : DomainError} (h : Left b D (.domain d) es) : Idle b es :=
  ⟨⟨fun hany => (h.1.2 hany).resolve_right not_lost_domain, h.1.1.2⟩, h.2⟩

/-- A check before the first write leaves nothing behind. -/
theorem Idle.left {d : DomainError} (h : Idle b es) (hd : D d) : Left b D (.domain d) es :=
  ⟨⟨⟨hd, h.1.2⟩, fun hany => .inl (h.1.1 hany)⟩, h.2⟩

namespace Runs

/-- Returning a value. -/
theorem pure {a : α} (h : ∀ es, P es → Q a es) : Runs P (Pure.pure a) Q E :=
  Stateful.Triple.pure fun _ => h

/-- A value changes nothing. -/
theorem unchanged {a : α} : Runs P (Pure.pure a) (fun _ => P) E := pure fun _ h => h

/-- Raising an exception. -/
theorem throw (h : ∀ es, P es → E e es) : Runs P (MonadExcept.throw e) Q E :=
  Stateful.Triple.throw fun _ => h

/-- One part after another; the exceptions of both leave the whole. -/
theorem bind {x : ServiceM α} {f : α → ServiceM β} {M : α → History Answer → Prop}
    {Q : β → History Answer → Prop} (hx : Runs P x M E) (hf : ∀ a, Runs (M a) (f a) Q E) :
    Runs P (x >>= f) Q E :=
  Stateful.Triple.bind hx hf

/-- `try … except`: an exception goes to the handler. -/
theorem tryCatch {x : ServiceM α} {handler : ServiceError → ServiceM α} (hx : Runs P x Q E)
    (hhandler : ∀ e, Runs (E e) (handler e) Q E') :
    Runs P (MonadExcept.tryCatch x handler) Q E' :=
  Stateful.Triple.tryCatch hx hhandler

/-- A rule of consequence. -/
theorem mono {x : ServiceM α} (hx : Runs P' x Q' E') (hP : ∀ es, P es → P' es)
    (hQ : ∀ a es, Q' a es → Q a es) (hE : ∀ e es, E' e es → E e es) : Runs P x Q E :=
  Stateful.Triple.mono hx (fun _ => hP) (fun a _ => hQ a) fun e _ => hE e

/-- A stronger precondition. -/
theorem of_pre {x : ServiceM α} (hx : Runs P' x Q E) (hP : ∀ es, P es → P' es) : Runs P x Q E :=
  hx.mono hP (fun _ _ h => h) fun _ _ h => h

/-- Before a write. -/
theorem opened {x : ServiceM α} (hx : Runs (Open b) x Q E) : Runs (Idle b) x Q E :=
  hx.of_pre fun _ h => h.open

/-- A branch on a decidable condition. -/
theorem ite {c : Prop} [Decidable c] {x y : ServiceM α} (hx : c → Runs P x Q E)
    (hy : ¬c → Runs P y Q E) : Runs P (if c then x else y) Q E := by
  by_cases hc : c
  · rw [if_pos hc]
    exact hx hc
  · rw [if_neg hc]
    exact hy hc

/-- A change of the outbox is no call. -/
theorem modify {f : Outbox → Outbox} : Runs P (Stateful.modify f) (fun _ => P) E :=
  Stateful.Triple.modify fun _ _ h => h

/-- A call whose exception is looked at. -/
theorem attempt {c : Call} {Q : Except Raised c.Value → History Answer → Prop}
    (h : ∀ es (r : Answer c), P es → Q r (⟨c, r⟩ :: es)) : Runs P (Publishing.attempt c) Q E :=
  Stateful.Triple.call fun _ es r hes _ => ⟨trivial, h es r hes⟩

/-- What holds after the answer to a call that raises its error. -/
def Answered {α : Type} (Q : α → History Answer → Prop) (E : ServiceError → History Answer → Prop) :
    Except Raised α → History Answer → Prop
  | .ok value => Q value
  | .error e => E (.raised e)

/-- A call whose exception is passed on. -/
theorem ask {c : Call} {Q : c.Value → History Answer → Prop}
    (hok : ∀ es (value : c.Value), P es → Q value (⟨c, .ok value⟩ :: es))
    (herror : ∀ es (r : Raised), P es → E (.raised r) (⟨c, .error r⟩ :: es)) :
    Runs P (Publishing.ask c) Q E := by
  refine bind (M := Answered Q E) (attempt ?_) ?_
  · rintro es (e | value) hes
    · exact herror es e hes
    · exact hok es value hes
  · rintro (e | value)
    · exact throw fun es h => h
    · exact pure fun es h => h

end Runs

/-! ## Calls and checks -/

/-- The history of an open transaction with one more call. -/
theorem Open.cons {c : Call} {value : c.Value} (h : Open b es) (hc : c.essential = true)
    (hcommit : c ≠ .commit) : Open b (⟨c, .ok value⟩ :: es) :=
  ⟨fun hany => h.1 (by rwa [any_commits_cons (commits_eq_false hc hcommit)] at hany),
    not_broken_ok h.2⟩

/-- A call that raises. -/
theorem Open.raises {c : Call} {r : Raised} (h : Open b es) (hc : c.essential = true)
    (hcommit : commits ⟨c, .error r⟩ = false) : Raises b D (.raised r) (⟨c, .error r⟩ :: es) :=
  ⟨explained_of_call hc, fun hany => .inl (h.1 (by rwa [any_commits_cons hcommit] at hany))⟩

/-- A call that sends events, after the commit. -/
theorem Told.cons {c : Call} {r : Answer c} (h : Told es) (hc : c.tells = true)
    (hr : ∀ text, c.essential = true → r ≠ .error (.exception text)) : Told (⟨c, r⟩ :: es) := by
  refine ⟨saved_cons hc h.1, ?_⟩
  cases hessential : c.essential with
  | false => exact not_broken_of_not_essential hessential h.2
  | true =>
      rintro ⟨c', text, hc', hmem⟩
      rcases List.mem_cons.mp hmem with heq | hmem
      · cases heq
        exact hr text hessential rfl
      · exact h.2 ⟨c', text, hc', hmem⟩

namespace SuggestionService

end SuggestionService

/-! ## Analysis jobs -/

namespace AnalysisJobService

end AnalysisJobService

end SyncBack.Publishing
