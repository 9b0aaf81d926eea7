import SyncBack.Services.PublishingServices

/-!
# Events without a commit

The history of a run says which changes of status are pending in the open transaction, which were
committed, and which events were published: its `ledger`. The published events should be a
subsequence of the committed changes.

They are in every run in which no call fails while a change of status is pending, the commit itself
and the conflict of `create_for_document` apart (`no_phantom_events`). A call that fails there is
rolled back, but its event stays in the outbox, and the next operation of the instance publishes it
(`phantom_event`).
-/

namespace SyncBack.Publishing

open Effects

/-! ## What a history says -/

/-- A change of status: the document and its new status. -/
abbrev Change := Uuid × DocumentStatus

/-- The changes of status of a run. -/
structure Ledger where
  /-- Written in the open transaction. -/
  pending : List Change := []
  committed : List Change := []
  published : List Change := []

/-- What a call and its answer do to the changes. The export has a transaction of its own and
commits what is pending; an event counts as published whether or not the publisher raised. -/
def Ledger.after (l : Ledger) : Sigma Answer → Ledger
  | ⟨.documentsUpdateStatus documentId status, .ok _⟩ =>
      { l with pending := l.pending ++ [(documentId, status)] }
  | ⟨.documentsCompareAndSetStatus documentId _ _ target, .ok true⟩ =>
      { l with pending := l.pending ++ [(documentId, target)] }
  | ⟨.commit, .ok _⟩ => { l with pending := [], committed := l.committed ++ l.pending }
  | ⟨.exportAndSave _, .ok _⟩ => { l with pending := [], committed := l.committed ++ l.pending }
  | ⟨.rollback, _⟩ => { l with pending := [] }
  | ⟨.publish event, _⟩ =>
      { l with published := l.published ++ [(event.documentId, event.status)] }
  | _ => l

/-- The changes of status of a history. -/
def ledger : History Answer → Ledger
  | [] => {}
  | e :: es => (ledger es).after e

/-- Every event belongs to a committed change of its own, and they come in the order of the
commits. -/
def EventsCommitted (es : History Answer) : Prop := (ledger es).published.Sublist (ledger es).committed

/-- The call fails, and takes its operation with it. A failed commit empties the outbox, and a
conflict of `create_for_document` does; a `reset_status` that finds nothing to reset is a failure
too. -/
def fails : Sigma Answer → Bool
  | ⟨.commit, _⟩ => false
  | ⟨.rollback, _⟩ => false
  | ⟨.suggestionsResetStatus _, .ok none⟩ => true
  | ⟨_, .error _⟩ => true
  | _ => false

/-- The last call did not fail while a change of status was pending. -/
def FailsCleanly : History Answer → Prop
  | [] => True
  | e :: es => fails e = true → (ledger es).pending = []

/-- The calls that change nothing about any of this. -/
def Call.quiet : Call → Bool
  | .documentsUpdateStatus _ _ | .documentsCompareAndSetStatus _ _ _ _ | .commit
  | .exportAndSave _ | .rollback | .publish _ => false
  | _ => true

/-- A quiet call leaves the changes as they are. -/
theorem ledger_quiet {c : Call} (hc : c.quiet = true) (r : Answer c) (es : History Answer) :
    ledger (⟨c, r⟩ :: es) = ledger es := by
  cases c <;> first | rfl | cases hc

/-- An error of any other call fails. -/
theorem fails_error {c : Call} (hc : c ≠ .commit) (hc' : c ≠ .rollback) (e : Raised) :
    fails ⟨c, .error e⟩ = true := by
  cases c <;> first | rfl | exact absurd rfl hc | exact absurd rfl hc'

/-! ## Conditions on the outbox and the changes -/

/-- A condition on the outbox of the instance and on the changes so far. -/
abbrev Condition := Outbox → Ledger → Prop

/-- The change that an event of the outbox is about. -/
def PendingStatusChange.change (c : PendingStatusChange) : Change := (c.documentId, c.status)

/-- Nothing is pending and nothing is recorded. -/
def Calm : Condition := fun o l => o = [] ∧ l.pending = []

/-- What is pending is what is recorded. -/
def Level : Condition := fun o l => o.map PendingStatusChange.change = l.pending

/-- The condition, in a history whose events are all committed. -/
def On (P : Condition) : Stateful.Assertion Answer Outbox :=
  fun o es => EventsCommitted es ∧ P o (ledger es)

/-- From `P` the operation ends with `Q` or raises with `E`, and all events are committed at every
moment of it. -/
def Holds {α : Type} (P : Condition) (x : ServiceM α) (Q : α → Condition)
    (E : ServiceError → Condition) : Prop :=
  Stateful.Triple FailsCleanly EventsCommitted (On P) x (fun a => On (Q a)) fun e => On (E e)

variable {α β : Type} {P P' : Condition} {Q Q' : α → Condition} {E E' : ServiceError → Condition}

/-- Where nothing is pending and nothing recorded, the two agree. -/
theorem Calm.level {o : Outbox} {l : Ledger} (h : Calm o l) : Level o l := by
  obtain ⟨rfl, hpending⟩ := h
  exact hpending.symm

/-- Where the two agree and nothing is pending, nothing is recorded. -/
theorem Level.calm {o : Outbox} {l : Ledger} (h : Level o l) (hpending : l.pending = []) :
    Calm o l := ⟨List.map_eq_nil_iff.1 (h.trans hpending), hpending⟩

namespace Holds

/-- Returning a value. -/
theorem pure {a : α} (h : ∀ o l, P o l → Q a o l) : Holds P (Pure.pure a) Q E :=
  Stateful.Triple.pure fun o _ ho => ⟨ho.1, h o _ ho.2⟩

/-- A value changes nothing. -/
theorem unchanged {a : α} : Holds P (Pure.pure a) (fun _ => P) E := pure fun _ _ h => h

/-- Raising an exception. -/
theorem throw {e : ServiceError} (h : ∀ o l, P o l → E e o l) :
    Holds P (MonadExcept.throw e) Q E :=
  Stateful.Triple.throw fun o _ ho => ⟨ho.1, h o _ ho.2⟩

/-- One part after another; the exceptions of both leave the whole. -/
theorem bind {x : ServiceM α} {f : α → ServiceM β} {M : α → Condition} {Q : β → Condition}
    (hx : Holds P x M E) (hf : ∀ a, Holds (M a) (f a) Q E) : Holds P (x >>= f) Q E :=
  Stateful.Triple.bind hx hf

/-- `try … except`: an exception goes to the handler. -/
theorem tryCatch {x : ServiceM α} {handler : ServiceError → ServiceM α}
    (hx : Holds P x Q E) (hhandler : ∀ e, Holds (E e) (handler e) Q E') :
    Holds P (MonadExcept.tryCatch x handler) Q E' :=
  Stateful.Triple.tryCatch hx hhandler

/-- A rule of consequence. -/
theorem mono {x : ServiceM α} (hx : Holds P' x Q' E') (hP : ∀ o l, P o l → P' o l)
    (hQ : ∀ a o l, Q' a o l → Q a o l) (hE : ∀ e o l, E' e o l → E e o l) : Holds P x Q E :=
  Stateful.Triple.mono hx (fun o _ h => ⟨h.1, hP o _ h.2⟩)
    (fun a o _ h => ⟨h.1, hQ a o _ h.2⟩) fun e o _ h => ⟨h.1, hE e o _ h.2⟩

/-- A branch on a decidable condition. -/
theorem ite {c : Prop} [Decidable c] {x y : ServiceM α} (hx : c → Holds P x Q E)
    (hy : ¬c → Holds P y Q E) : Holds P (if c then x else y) Q E := by
  by_cases hc : c
  · rw [if_pos hc]
    exact hx hc
  · rw [if_neg hc]
    exact hy hc

/-- A change of the outbox. -/
theorem modify {f : Outbox → Outbox} {Q : Unit → Condition} (h : ∀ o l, P o l → Q () (f o) l) :
    Holds P (Stateful.modify f) Q E :=
  Stateful.Triple.modify fun o _ ho => ⟨ho.1, h o _ ho.2⟩

/-- A call within a `try`, by way of what it does to the changes. -/
theorem attempt {c : Call} {Q : Except Raised c.Value → Condition}
    (h : ∀ o es (r : Answer c), On P o es → FailsCleanly (⟨c, r⟩ :: es) →
      On (Q r) o (⟨c, r⟩ :: es)) : Holds P (Publishing.attempt c) Q E :=
  Stateful.Triple.call fun o es r ho hr => ⟨(h o es r ho hr).1, h o es r ho hr⟩

/-- What holds after the answer to a call that raises its error. -/
def Answered {α : Type} (Q : α → Condition) (E : ServiceError → Condition) :
    Except Raised α → Condition
  | .ok value => Q value
  | .error e => E (.raised e)

/-- A call, by way of what it does to the changes. -/
theorem ask {c : Call} {Q : c.Value → Condition}
    (hok : ∀ o es (value : c.Value), On P o es → FailsCleanly (⟨c, .ok value⟩ :: es) →
      On (Q value) o (⟨c, .ok value⟩ :: es))
    (herror : ∀ o es (r : Raised), On P o es → FailsCleanly (⟨c, .error r⟩ :: es) →
      On (E (.raised r)) o (⟨c, .error r⟩ :: es)) : Holds P (Publishing.ask c) Q E := by
  refine bind (M := Answered Q E) (attempt ?_) ?_
  · rintro o es (e | value) ho hr
    · exact herror o es e ho hr
    · exact hok o es value ho hr
  · rintro (e | value)
    · exact throw fun o l h => h
    · exact pure fun o l h => h

/-- A quiet call fails only while nothing is pending. -/
theorem ask_quiet {c : Call} (hc : c.quiet = true) :
    Holds P (Publishing.ask c) (fun _ => P) fun _ o l => P o l ∧ l.pending = [] := by
  refine ask (fun o es value ho _ => ?_) fun o es r ho hr => ?_
  · unfold On EventsCommitted
    rwa [ledger_quiet hc]
  · unfold On EventsCommitted
    rw [ledger_quiet hc]
    refine ⟨ho.1, ho.2, hr (fails_error ?_ ?_ r)⟩
    · rintro rfl
      cases hc
    · rintro rfl
      cases hc

end Holds

/-- Where an exception leaves the block of a transaction, the outbox is empty. -/
def Emptied : ServiceError → Condition := fun _ o _ => o = []

/-- A part of a transaction whose exceptions leave an empty outbox. -/
abbrev Safely (P : Condition) (x : ServiceM α) (Q : Condition) : Prop :=
  Holds P x (fun _ => Q) Emptied

/-- A whole operation: it leaves nothing behind, whether or not it raises. -/
abbrev Calmly (x : ServiceM α) : Prop := Holds Calm x (fun _ => Calm) fun _ => Calm

/-! ## The calls -/

/-- A check may raise while nothing is pending. -/
theorem fail_calm {e : DomainError} : Holds Calm (fail e : ServiceM α) Q fun _ => Calm :=
  Holds.throw fun _ _ h => h

/-- A check that raises while the outbox is empty leaves it empty. -/
theorem fail_safely {e : DomainError} (h : ∀ o l, P o l → o = []) :
    Holds P (fail e : ServiceM α) Q Emptied := Holds.throw h

/-- A check that raises while nothing is pending leaves an empty outbox. -/
theorem fail_of_calm {e : DomainError} {Q : α → Condition} :
    Holds Calm (fail e : ServiceM α) Q Emptied := fail_safely fun _ _ h => h.1

/-- A check with a result. -/
theorem check_safely {c : Prop} [Decidable c] {a : α} {e : DomainError} :
    Safely Calm (if c then pure a else fail e) Calm :=
  Holds.ite (fun _ => Holds.unchanged) fun _ => fail_of_calm

/-- A quiet call keeps everything calm, whatever it answers. -/
theorem ask_calm {c : Call} (hc : c.quiet = true) : Calmly (ask c) :=
  (Holds.ask_quiet hc).mono (fun _ _ h => h) (fun _ _ _ h => h) fun _ _ _ h => h.1

/-- So it does within a transaction. -/
theorem ask_safely {c : Call} (hc : c.quiet = true) : Safely Calm (ask c) Calm :=
  (ask_calm hc).mono (fun _ _ h => h) (fun _ _ _ h => h) fun _ _ _ h => h.1

/-- With a change pending a quiet call does not fail. -/
theorem ask_level {c : Call} (hc : c.quiet = true) : Safely Level (ask c) Level :=
  (Holds.ask_quiet hc).mono (fun _ _ h => h) (fun _ _ _ h => h) fun _ _ _ h => (h.1.calm h.2).1

/-- One change is pending, and not recorded yet. -/
def Unrecorded (change : Change) : Condition := fun o l => o = [] ∧ l.pending = [change]

/-- After `update_status` the change is pending and not recorded yet. -/
theorem ask_updateStatus (documentId : Uuid) (status : DocumentStatus) :
    Safely Calm (ask (.documentsUpdateStatus documentId status))
      (Unrecorded (documentId, status)) := by
  refine Holds.ask (fun o es value ho _ => ?_) fun o es r ho _ => ?_
  · obtain ⟨hevents, rfl, hpending⟩ := ho
    refine ⟨hevents, rfl, ?_⟩
    change (ledger es).pending ++ [(documentId, status)] = _
    rw [hpending]
    rfl
  · exact ⟨ho.1, ho.2.1⟩

/-- The conditional update writes a change, or none. -/
theorem ask_compareAndSetStatus (documentId : Uuid) (analysisJobId : Option Uuid)
    (expected target : DocumentStatus) :
    Holds Calm (ask (.documentsCompareAndSetStatus documentId analysisJobId expected target))
      (fun reopened : Bool =>
        if reopened = true then Unrecorded (documentId, target) else Calm) Emptied := by
  refine Holds.ask (fun o es (reopened : Bool) ho _ => ?_) fun o es r ho _ => ?_
  · cases reopened with
    | false => exact ho
    | true =>
        obtain ⟨hevents, rfl, hpending⟩ := ho
        refine ⟨hevents, rfl, ?_⟩
        change (ledger es).pending ++ [(documentId, target)] = _
        rw [hpending]
        rfl
  · exact ⟨ho.1, ho.2.1⟩

/-- Recording makes the outbox agree with what is pending. -/
theorem record_level (document : Loaded Document) :
    Safely (Unrecorded (document.id, document.row.status)) (DocumentEventOutbox.record document)
      Level := by
  refine Holds.modify fun o l h => ?_
  obtain ⟨rfl, hpending⟩ := h
  exact hpending.symm

/-- The check of a transition of the document changes nothing. -/
theorem documentTransition_safely (current target : DocumentStatus) :
    Safely Calm (documentTransition current target) Calm := by
  unfold documentTransition
  split
  · exact Holds.unchanged
  · exact fail_of_calm

/-- `_set_document_status` writes a change and records it. -/
theorem setDocumentStatus_safely (document : Loaded Document) (target : DocumentStatus) :
    Safely Calm (setDocumentStatus document target) Level := by
  refine Holds.bind (documentTransition_safely _ _) fun status => ?_
  refine Holds.bind (ask_updateStatus document.id status) fun _ => ?_
  refine Holds.bind (record_level (withStatus document status)) fun _ => ?_
  exact Holds.unchanged

/-! ## The commit -/

/-- The events that are to be published belong to committed changes. -/
def Ready (changes : Outbox) : Condition := fun o l =>
  Calm o l ∧ (l.published ++ changes.map PendingStatusChange.change).Sublist l.committed

/-- Publishing takes the first of the events that are to be published. -/
theorem publish_ready (change : PendingStatusChange) (rest : Outbox) (ownerId : Uuid) :
    Holds (Ready (change :: rest)) (DocumentEventOutbox.publish change ownerId)
      (fun _ => Ready rest) fun _ => Calm := by
  refine Holds.bind (M := fun _ => Ready rest) (Holds.attempt fun o es r ho _ => ?_) fun r => ?_
  · obtain ⟨-, hcalm, hsub⟩ := ho
    -- the event goes from the outbox to the published ones
    have hsub' : ((ledger es).published ++ [change.change] ++
        rest.map PendingStatusChange.change).Sublist (ledger es).committed := by
      rw [List.append_assoc]
      exact hsub
    exact ⟨(List.sublist_append_left _ _).trans hsub', hcalm, hsub'⟩
  · split
    · exact Holds.throw fun _ _ h => h.1
    · exact Holds.unchanged

/-- An event that is skipped leaves the others to be published. -/
theorem Ready.skip {change : PendingStatusChange} {rest : Outbox} {o : Outbox} {l : Ledger}
    (h : Ready (change :: rest) o l) : Ready rest o l :=
  ⟨h.1, (List.Sublist.append_left (List.sublist_cons_self _ _) _).trans h.2⟩

/-- Publishing for each owner ends with nothing left, whether or not a publisher raises. -/
theorem flushEach_calm (changes : Outbox) : ∀ owners : List (Uuid × Uuid),
    Holds (Ready changes) (DocumentEventOutbox.flushEach changes owners) (fun _ => Calm)
      fun _ => Calm := by
  induction changes with
  | nil => exact fun owners => Holds.pure fun _ _ h => h.1
  | cons change rest ih =>
      intro owners
      simp only [DocumentEventOutbox.flushEach]
      split
      · exact Holds.bind (publish_ready _ _ _) fun _ => ih owners
      · refine Holds.bind ((Holds.ask_quiet rfl).mono (fun _ _ h => h) (fun _ _ _ h => h)
          fun _ _ _ h => h.1.1) fun found => ?_
        cases found with
        | none => exact (ih owners).mono (fun _ _ h => h.skip) (fun _ _ _ h => h) fun _ _ _ h => h
        | some ownerId => exact Holds.bind (publish_ready _ _ _) fun _ => ih _

/-- The commit itself: what was pending is committed, and recorded. -/
theorem ask_commit : Holds Level (ask .commit)
    (fun _ o l => l.pending = [] ∧
      (l.published ++ o.map PendingStatusChange.change).Sublist l.committed) fun _ => Level := by
  refine Holds.ask (fun o es _ ho _ => ?_) fun o es r ho _ => ho
  obtain ⟨hevents, hlevel⟩ := ho
  have hsub : ((ledger es).published ++ o.map PendingStatusChange.change).Sublist
      ((ledger es).committed ++ (ledger es).pending) := by
    rw [hlevel]
    exact List.Sublist.append hevents (List.Sublist.refl _)
  exact ⟨hevents.trans (List.sublist_append_left _ _), rfl, hsub⟩

/-- After the commit `flush` publishes what was recorded, and nothing else. -/
theorem flush_calm : Holds (fun o l => l.pending = [] ∧
      (l.published ++ o.map PendingStatusChange.change).Sublist l.committed)
    DocumentEventOutbox.flush (fun _ => Calm) fun _ => Calm := by
  refine Holds.bind (M := Ready) ?_ fun changes => flushEach_calm changes []
  exact Stateful.Triple.modifyGet fun o es ho => ⟨ho.1, ⟨rfl, ho.2.1⟩, ho.2.2⟩

/-- `_commit` publishes what was recorded, and a failure empties the outbox. -/
theorem commit_safely : Safely Level commit Calm := by
  refine Holds.bind (Holds.tryCatch ask_commit fun e => ?_) fun _ =>
    flush_calm.mono (fun _ _ h => h) (fun _ _ _ h => h) fun _ _ _ h => h.1
  refine Holds.bind (M := fun _ o _ => o = []) ?_ fun _ => Holds.throw fun _ _ h => h
  exact Holds.modify fun _ _ _ => rfl

/-- A commit with nothing pending stays calm. -/
theorem commit_of_calm : Safely Calm commit Calm :=
  commit_safely.mono (fun _ _ h => h.level) (fun _ _ _ h => h) fun _ _ _ h => h

/-- The block of a transaction leaves nothing pending. -/
theorem withUow_holds {body : ServiceM α} {D : ServiceError → Outbox → Prop}
    (h : Holds P body Q fun e o _ => D e o) :
    Holds P (withUow body) Q fun e o l => D e o ∧ l.pending = [] := by
  refine Holds.tryCatch h fun e => ?_
  refine Holds.bind (M := fun _ o l => D e o ∧ l.pending = []) ?_ fun _ =>
    Holds.throw fun _ _ h => h
  exact Holds.attempt fun o es r ho _ => ⟨ho.1, ho.2, rfl⟩

/-- A unit of work whose body is safe is calm as a whole. -/
theorem withUow_calmly {body : ServiceM α} (h : Safely Calm body Calm) : Calmly (withUow body) :=
  (withUow_holds h).mono (fun _ _ h => h) (fun _ _ _ h => h) fun _ _ _ h => h

/-! ## Reviews -/

/-- `_get_document_or_raise` reads and checks. -/
theorem getDocumentOrRaise_safely (projectId documentId : Uuid) :
    Safely Calm (getDocumentOrRaise projectId documentId) Calm := by
  refine Holds.bind (ask_safely rfl) fun found => ?_
  split
  · split
    · exact Holds.unchanged
    · exact fail_of_calm
  · exact fail_of_calm

namespace SuggestionService

/-- `_assert_awaiting_approval` is a check. -/
theorem assertAwaitingApproval_safely (document : Loaded Document) :
    Safely Calm (assertAwaitingApproval document) Calm := check_safely

/-- So is `_assert_decisions_resettable`. -/
theorem assertDecisionsResettable_safely (document : Loaded Document) :
    Safely Calm (assertDecisionsResettable document) Calm := check_safely

/-- And `_assert_has_active_job`. -/
theorem assertHasActiveJob_safely (document : Loaded Document) :
    Safely Calm (assertHasActiveJob document) Calm := by
  unfold assertHasActiveJob
  split
  · exact Holds.unchanged
  · exact fail_of_calm

/-- Reading a suggestion of the document reads and checks. -/
theorem getSuggestionOf_safely (document : Loaded Document) (suggestionId : Uuid) :
    Safely Calm (getSuggestionOf document suggestionId) Calm := by
  refine Holds.bind (ask_safely rfl) fun found => ?_
  split
  · split
    · exact Holds.unchanged
    · exact fail_of_calm
  · exact fail_of_calm

/-- Reopening a review changes a status and records it. -/
theorem reopenReview_safely (document : Loaded Document) :
    Safely Calm (reopenReview document) Level := by
  unfold reopenReview
  split
  · refine Holds.bind (documentTransition_safely _ _) fun target => ?_
    refine Holds.bind (ask_compareAndSetStatus _ _ _ _) fun reopened => ?_
    cases reopened with
    | true => exact record_level (withStatus document target)
    | false => exact fail_of_calm
  · exact Holds.pure fun _ _ h => h.level

/-- An export outside a review changes no status. -/
theorem runExport_safely (document : Loaded Document) :
    Safely Calm (runExport document) Calm := by
  refine Holds.bind (M := fun _ => Calm) (Holds.attempt fun o es r ho _ => ?_) fun r => ?_
  · cases r with
    | error e => exact ho
    | ok _ =>
        refine ⟨?_, ho.2.1, rfl⟩
        exact ho.1.trans (List.sublist_append_left _ _)
  · split
    · exact Holds.unchanged
    · exact fail_of_calm
    · exact Holds.throw fun _ _ h => h.1

/-- Nor does one that was not asked for. -/
theorem exportIfAsked_safely (exporting : Bool) (document : Loaded Document) :
    Safely Calm (exportIfAsked exporting document) Calm := by
  unfold exportIfAsked
  split
  · exact runExport_safely document
  · exact Holds.unchanged

/-- `list_suggestions_for_document` is calm. -/
theorem listSuggestionsForDocument_calmly (projectId documentId : Uuid) (limit offset : ℕ)
    (statusFilter : Option SuggestionStatus) :
    Calmly (listSuggestionsForDocument projectId documentId limit offset statusFilter) := by
  refine withUow_calmly (Holds.bind (getDocumentOrRaise_safely _ _) fun document => ?_)
  split
  · exact Holds.unchanged
  · exact ask_safely rfl

/-- `get_suggestion_for_document` is calm. -/
theorem getSuggestionForDocument_calmly (projectId documentId suggestionId : Uuid) :
    Calmly (getSuggestionForDocument projectId documentId suggestionId) :=
  withUow_calmly (Holds.bind (getDocumentOrRaise_safely _ _) fun _ => getSuggestionOf_safely _ _)

/-- `count_by_document_and_status` is calm. -/
theorem countByDocumentAndStatus_calmly (projectId documentId : Uuid) :
    Calmly (countByDocumentAndStatus projectId documentId) := by
  refine withUow_calmly (Holds.bind (getDocumentOrRaise_safely _ _) fun document => ?_)
  split
  · exact Holds.unchanged
  · refine Holds.bind (ask_safely rfl) fun _ => ?_
    refine Holds.bind (ask_safely rfl) fun _ => ?_
    refine Holds.bind (ask_safely rfl) fun _ => ?_
    exact Holds.unchanged

/-- A reset that finds nothing to reset does so only while nothing is pending. -/
theorem ask_resetStatus (suggestionId : Uuid) :
    Holds Level (ask (.suggestionsResetStatus suggestionId))
      (fun updated : Option (Loaded Suggestion) => if updated.isSome = true then Level else Calm)
      Emptied := by
  refine Holds.ask (fun o es (updated : Option (Loaded Suggestion)) ho hr => ?_)
    fun o es r ho hr => ?_
  · cases updated with
    | some _ => exact ho
    | none => exact ⟨ho.1, ho.2.calm (hr rfl)⟩
  · exact ⟨ho.1, (ho.2.calm (hr rfl)).1⟩

/-- `reset_suggestion` is calm: that it finds nothing to reset is a failed call here. -/
theorem resetSuggestion_calmly (projectId documentId suggestionId : Uuid) :
    Calmly (resetSuggestion projectId documentId suggestionId) := by
  refine withUow_calmly (Holds.bind (getDocumentOrRaise_safely _ _) fun document => ?_)
  refine Holds.bind (assertDecisionsResettable_safely _) fun _ => ?_
  refine Holds.bind (getSuggestionOf_safely _ _) fun suggestion => ?_
  split
  · exact fail_of_calm
  · refine Holds.bind (reopenReview_safely _) fun _ => ?_
    refine Holds.bind (ask_resetStatus _) fun updated => ?_
    cases updated with
    | some updated => exact Holds.bind commit_safely fun _ => Holds.unchanged
    | none => exact fail_of_calm

/-- A decision about pending suggestions changes no status of the document. -/
theorem decidePending_safely (documentId jobId userId : Uuid) (targetStatus : SuggestionStatus)
    (ids : Option (List Uuid)) (filter : Option PatchFilter) :
    Safely Calm (decidePending documentId jobId userId targetStatus ids filter) Calm := by
  unfold decidePending
  split
  · refine Holds.bind (ask_safely rfl) fun _ => ?_
    split
    · exact Holds.unchanged
    · exact fail_of_calm
  · refine Holds.ite (fun _ => fail_of_calm) fun _ => ?_
    exact Holds.ite (fun _ => ask_safely rfl) fun _ => ask_safely rfl

/-- Nor does a reset to pending. -/
theorem resetToPending_safely (jobId : Uuid) (ids : Option (List Uuid))
    (filter : Option PatchFilter) : Safely Calm (resetToPending jobId ids filter) Calm := by
  unfold resetToPending
  split
  · exact Holds.ite (fun _ => Holds.unchanged) fun _ => ask_safely rfl
  · refine Holds.bind (ask_safely rfl) fun _ => ?_
    split
    · exact Holds.unchanged
    · exact fail_of_calm

/-- A patch may reopen the review, which is recorded. -/
theorem applyPatch_safely (document : Loaded Document) (documentId userId : Uuid)
    (targetStatus : SuggestionStatus) (ids : Option (List Uuid)) (filter : Option PatchFilter) :
    Safely Calm (applyPatch document documentId userId targetStatus ids filter) Level := by
  unfold applyPatch
  split
  · refine Holds.bind (assertDecisionsResettable_safely _) fun _ => ?_
    refine Holds.bind (assertHasActiveJob_safely _) fun _ => ?_
    refine Holds.bind (resetToPending_safely _ _ _) fun _ => ?_
    split
    · exact Holds.pure fun _ _ h => h.level
    · exact Holds.bind (reopenReview_safely _) fun _ => Holds.unchanged
  · refine Holds.bind (assertAwaitingApproval_safely _) fun _ => ?_
    refine Holds.bind (assertHasActiveJob_safely _) fun _ => ?_
    exact (decidePending_safely _ _ _ _ _ _).mono (fun _ _ h => h) (fun _ _ _ h => h.level)
      fun _ _ _ h => h

/-- `patch_suggestions` is calm. -/
theorem patchSuggestions_calmly (projectId documentId userId : Uuid)
    (targetStatus : SuggestionStatus) (ids : Option (List Uuid)) (filter : Option PatchFilter) :
    Calmly (patchSuggestions projectId documentId userId targetStatus ids filter) := by
  unfold patchSuggestions
  split
  · exact fail_calm
  · refine withUow_calmly (Holds.bind (getDocumentOrRaise_safely _ _) fun document => ?_)
    refine Holds.bind (applyPatch_safely _ _ _ _ _ _) fun _ => ?_
    refine Holds.bind (ask_level rfl) fun _ => ?_
    exact Holds.bind commit_safely fun _ => Holds.unchanged

/-- `finalize_review` is calm. -/
theorem finalizeReview_calmly (projectId documentId : Uuid) (exporting : Bool) :
    Calmly (finalizeReview projectId documentId exporting) := by
  refine withUow_calmly (Holds.bind (getDocumentOrRaise_safely _ _) fun document => ?_)
  refine Holds.bind (assertAwaitingApproval_safely _) fun _ => ?_
  refine Holds.bind (assertHasActiveJob_safely _) fun _ => ?_
  refine Holds.bind (ask_safely rfl) fun _ => ?_
  split
  · refine Holds.bind (exportIfAsked_safely _ _) fun _ => ?_
    refine Holds.bind (setDocumentStatus_safely _ _) fun _ => ?_
    exact Holds.bind commit_safely fun _ => Holds.unchanged
  · exact fail_of_calm

/-- The end of a save may finish the review, which is recorded. -/
theorem finalizeSave_safely (document : Loaded Document) (pendingCount : ℕ) (exporting : Bool) :
    Safely Calm (finalizeSave document pendingCount exporting) Level := by
  unfold finalizeSave
  split
  · exact Holds.bind (exportIfAsked_safely _ _) fun _ => setDocumentStatus_safely _ _
  · exact fail_of_calm

/-- `atomic_review_save` is calm. -/
theorem atomicReviewSave_calmly (projectId documentId userId : Uuid) (reviewVersion : ℤ)
    (acceptedIds rejectedIds : List Uuid) (finalize exporting : Bool)
    (editedTexts : Uuid → Option Text) :
    Calmly (atomicReviewSave projectId documentId userId reviewVersion acceptedIds rejectedIds
      finalize exporting editedTexts) := by
  refine withUow_calmly (Holds.bind (getDocumentOrRaise_safely _ _) fun document => ?_)
  refine Holds.bind (assertAwaitingApproval_safely _) fun _ => ?_
  refine Holds.bind (assertHasActiveJob_safely _) fun _ => ?_
  refine Holds.bind (ask_safely rfl) fun locked => ?_
  split
  · exact fail_of_calm
  · refine Holds.bind (ask_safely rfl) fun _ => ?_
    split
    · refine Holds.bind (ask_safely rfl) fun _ => ?_
      refine Holds.bind (M := fun _ => Level) ?_ fun _ =>
        Holds.bind commit_safely fun _ => Holds.unchanged
      split
      · exact finalizeSave_safely _ _ _
      · exact Holds.pure fun _ _ h => h.level
    · exact fail_of_calm

end SuggestionService

/-! ## Analysis jobs -/

namespace AnalysisJobService

/-- The check of a transition of the job changes nothing. -/
theorem jobTransition_safely (current target : AnalysisJobStatus) :
    Safely Calm (jobTransition current target) Calm := by
  unfold jobTransition
  split
  · exact Holds.unchanged
  · exact fail_of_calm

/-- `_set_job_status` writes the document's change and records it. -/
theorem setJobStatus_safely (job : Loaded AnalysisJob) (document : Loaded Document)
    (target : AnalysisJobStatus) (errorCode errorMessage : Option String) :
    Safely Calm (setJobStatus job document target errorCode errorMessage) Level := by
  refine Holds.bind (jobTransition_safely _ _) fun _ => ?_
  refine Holds.bind (ask_safely rfl) fun _ => ?_
  split
  · exact Holds.bind (setDocumentStatus_safely _ _) fun _ => Holds.unchanged
  · exact Holds.pure fun _ _ h => h.level

/-- Reading the document of a job reads and checks. -/
theorem documentOf_safely (documentId : Uuid) : Safely Calm (documentOf documentId) Calm := by
  refine Holds.bind (ask_safely rfl) fun found => ?_
  split
  · exact Holds.unchanged
  · exact fail_of_calm

/-- Reading a job in its project reads and checks. -/
theorem jobOf_safely (projectId documentId jobId : Uuid) :
    Safely Calm (jobOf projectId documentId jobId) Calm := by
  refine Holds.bind (getDocumentOrRaise_safely _ _) fun _ => ?_
  refine Holds.bind (ask_safely rfl) fun found => ?_
  split
  · split
    · exact Holds.unchanged
    · exact fail_of_calm
  · exact fail_of_calm

/-- Looking for an idempotency key only reads. -/
theorem findByKey_safely (documentId : Uuid) (idempotencyKey : Option String) :
    Safely Calm (findByKey documentId idempotencyKey) Calm := by
  unfold findByKey
  split
  · exact ask_safely rfl
  · exact Holds.unchanged

/-- `find_job_by_idempotency_key` is calm. -/
theorem findJobByIdempotencyKey_calmly (projectId documentId : Uuid) (idempotencyKey : String) :
    Calmly (findJobByIdempotencyKey projectId documentId idempotencyKey) := by
  refine withUow_calmly (Holds.bind (ask_safely rfl) fun found => ?_)
  split
  · exact Holds.ite (fun _ => ask_safely rfl) fun _ => Holds.unchanged
  · exact Holds.unchanged

/-- What the outbox is when `_create_job_once` raises: with a conflict it may hold an event. -/
def EmptiedUnlessConflict (e : ServiceError) (o : Outbox) : Prop :=
  o = [] ∨ e = .domain .analysisJobConflict

/-- An empty outbox is one that a conflict alone may fill. -/
theorem Emptied.unlessConflict {x : ServiceM α} (h : Holds P x Q Emptied) :
    Holds P x Q fun e o _ => EmptiedUnlessConflict e o :=
  h.mono (fun _ _ h => h) (fun _ _ _ h => h) fun _ _ _ h => .inl h

/-- Storing a job records its change, which a conflict leaves in the outbox. -/
theorem storeJob_holds (document : Loaded Document) (idempotencyKey : Option String) :
    Holds Calm (storeJob document idempotencyKey) (fun _ => Calm)
      fun e o _ => EmptiedUnlessConflict e o := by
  refine Holds.bind (M := fun _ => Level) (Emptied.unlessConflict ?_) fun document => ?_
  · exact Holds.ite (fun _ => Holds.pure fun _ _ h => h.level) fun _ => setDocumentStatus_safely _ _
  · refine Holds.bind (Emptied.unlessConflict (ask_level rfl)) fun created => ?_
    split
    · refine Holds.bind (Emptied.unlessConflict (ask_level rfl)) fun _ => ?_
      refine Holds.bind (Emptied.unlessConflict commit_safely) fun _ => ?_
      exact Holds.unchanged
    · exact Holds.throw fun _ _ _ => .inr rfl

/-- `_create_job_once` leaves nothing pending, and events in the outbox only with a conflict. -/
theorem createJobOnce_holds (projectId documentId : Uuid) (idempotencyKey : Option String)
    (force : Bool) :
    Holds Calm (createJobOnce projectId documentId idempotencyKey force) (fun _ => Calm)
      fun e o l => EmptiedUnlessConflict e o ∧ l.pending = [] := by
  refine withUow_holds (Holds.bind
    (Emptied.unlessConflict (getDocumentOrRaise_safely _ _)) fun document => ?_)
  refine Holds.bind (Emptied.unlessConflict (findByKey_safely _ _)) fun existing => ?_
  split
  · exact Holds.unchanged
  · refine Holds.ite (fun _ => ?_) fun _ => Emptied.unlessConflict (fail_of_calm)
    refine Holds.bind (Emptied.unlessConflict (ask_safely rfl)) fun active => ?_
    split
    · exact Holds.ite (fun _ => Holds.unchanged) fun _ =>
        Emptied.unlessConflict (fail_of_calm)
    · refine Holds.ite (fun _ => Emptied.unlessConflict (fail_of_calm)) fun _ => ?_
      exact Holds.bind (storeJob_holds _ _) fun _ => Holds.unchanged

/-- Telling why a job was not created is calm. -/
theorem raiseCreateConflict_calmly (documentId : Uuid) (idempotencyKey : Option String) :
    Calmly (raiseCreateConflict documentId idempotencyKey : ServiceM α) := by
  refine Holds.bind (withUow_calmly (findByKey_safely _ _)) fun existing => ?_
  split
  · exact fail_calm
  · exact fail_calm

/-- A conflict empties the outbox too. -/
theorem createJob_calmly (projectId documentId : Uuid) (idempotencyKey : Option String)
    (force : Bool) : Calmly (createJob projectId documentId idempotencyKey force) := by
  refine Holds.bind (Holds.tryCatch (createJobOnce_holds _ _ _ _) fun e => ?_) fun outcome => ?_
  · split
    · refine Holds.bind (M := fun _ => Calm) ?_ fun _ => raiseCreateConflict_calmly _ _
      exact Holds.modify fun _ _ h => ⟨rfl, h.2⟩
    · rename_i hne
      refine Holds.throw fun o l h => ⟨?_, h.2⟩
      exact h.1.resolve_right hne
  · exact Holds.ite (fun _ => Holds.unchanged) fun _ => fail_calm

/-- `_mark_queue_unavailable` is calm. -/
theorem markQueueUnavailable_calmly (job : Loaded AnalysisJob) (errorMessage : String) :
    Calmly (markQueueUnavailable job errorMessage) := by
  refine withUow_calmly (Holds.bind (documentOf_safely _) fun _ => ?_)
  refine Holds.bind (setJobStatus_safely _ _ _ _ _) fun _ => ?_
  exact Holds.bind commit_safely fun _ => Holds.unchanged

/-- The check for a queue is calm. -/
theorem requireQueue_calmly (hasQueue : Bool) : Calmly (requireQueue hasQueue) :=
  Holds.ite (fun _ => Holds.unchanged) fun _ => fail_calm

/-- `dispatch_job` is calm. -/
theorem dispatchJob_calmly (hasQueue : Bool) (job : Loaded AnalysisJob) :
    Calmly (dispatchJob hasQueue job) := by
  refine Holds.ite (fun _ => ?_) fun _ => fail_calm
  refine Holds.bind (requireQueue_calmly _) fun _ => ?_
  refine Holds.bind (withUow_calmly (Holds.bind (documentOf_safely _) fun _ => ?_)) fun dispatched => ?_
  · refine Holds.bind (ask_safely rfl) fun _ => ?_
    refine Holds.bind (setJobStatus_safely _ _ _ _ _) fun _ => ?_
    exact Holds.bind commit_safely fun _ => Holds.unchanged
  · refine Holds.bind (M := fun _ => Calm) (Holds.attempt fun o es r ho _ => ho) fun sent => ?_
    split
    · refine withUow_calmly (Holds.bind (ask_safely rfl) fun _ => ?_)
      exact Holds.bind commit_of_calm fun _ => Holds.unchanged
    · exact markQueueUnavailable_calmly _ _
    · exact Holds.throw fun _ _ h => h

/-- `cancel_job` is calm. -/
theorem cancelJob_calmly (projectId documentId jobId : Uuid) :
    Calmly (cancelJob projectId documentId jobId) := by
  refine withUow_calmly (Holds.bind (jobOf_safely _ _ _) fun _ => ?_)
  refine Holds.ite (fun _ => Holds.unchanged) fun _ => ?_
  refine Holds.ite (fun _ => ?_) fun _ => fail_of_calm
  refine Holds.bind (documentOf_safely _) fun _ => ?_
  refine Holds.bind (setJobStatus_safely _ _ _ _ _) fun _ => ?_
  exact Holds.bind commit_safely fun _ => Holds.unchanged

/-- Revoking a task is calm. -/
theorem revokeCeleryTask_calmly (hasQueue : Bool) (celeryTaskId : String) :
    Calmly (revokeCeleryTask hasQueue celeryTaskId) :=
  Holds.bind (requireQueue_calmly _) fun _ => ask_calm rfl

/-- `get_active_for_document` is calm. -/
theorem getActiveForDocument_calmly (projectId documentId : Uuid) :
    Calmly (getActiveForDocument projectId documentId) := by
  refine withUow_calmly (Holds.bind (ask_safely rfl) fun found => ?_)
  split
  · exact Holds.ite (fun _ => ask_safely rfl) fun _ => Holds.unchanged
  · exact Holds.unchanged

/-- `get_job` is calm. -/
theorem getJob_calmly (projectId documentId jobId : Uuid) :
    Calmly (getJob projectId documentId jobId) := withUow_calmly (jobOf_safely _ _ _)

/-- `reset_analysis` is calm. -/
theorem resetAnalysis_calmly (projectId documentId : Uuid) :
    Calmly (resetAnalysis projectId documentId) := by
  refine withUow_calmly (Holds.bind (getDocumentOrRaise_safely _ _) fun document => ?_)
  refine Holds.ite (fun _ => ?_) fun _ => fail_of_calm
  split
  · exact fail_of_calm
  · refine Holds.bind (ask_safely rfl) fun _ => ?_
    refine Holds.bind (setDocumentStatus_safely _ _) fun _ => ?_
    exact Holds.bind commit_safely fun _ => Holds.unchanged

/-- One creation of the bulk start is calm. -/
theorem tryCreate_calmly (projectId documentId : Uuid) (force : Bool) :
    Calmly (tryCreate projectId documentId force) := by
  refine Holds.tryCatch (E := fun _ => Calm) (Holds.bind (createJob_calmly _ _ _ _) fun _ =>
    Holds.unchanged) fun e => ?_
  split
  · exact Holds.unchanged
  · exact Holds.throw fun _ _ h => h

/-- The loop of the bulk start is calm, by induction on the documents. -/
theorem startEach_calmly (hasQueue : Bool) (projectId : Uuid) (force : Bool)
    (documentIds : List Uuid) : Calmly (startEach hasQueue projectId force documentIds) := by
  induction documentIds with
  | nil => exact Holds.unchanged
  | cons documentId rest ih =>
      refine Holds.bind (tryCreate_calmly _ _ _) fun created => ?_
      split
      · refine Holds.bind (dispatchJob_calmly _ _) fun _ => ?_
        exact Holds.bind ih fun _ => Holds.unchanged
      · exact Holds.bind ih fun _ => Holds.unchanged

/-- `bulk_create_jobs_for_project` is calm. -/
theorem bulkCreateJobsForProject_calmly (hasQueue : Bool) (projectId : Uuid)
    (documentIds : Option (List Uuid)) (force : Bool) :
    Calmly (bulkCreateJobsForProject hasQueue projectId documentIds force) := by
  refine Holds.bind (M := fun _ => Calm) ?_ fun _ => Holds.bind (startEach_calmly _ _ _ _) fun _ => ?_
  · split
    · exact withUow_calmly (ask_safely rfl)
    · exact Holds.unchanged
  · refine Holds.ite (fun _ => Holds.unchanged) fun _ => ?_
    exact Holds.bind (withUow_calmly (ask_safely rfl)) fun _ => Holds.unchanged

end AnalysisJobService

/-! ## Runs -/

/-- Without its result a calm operation is calm. -/
theorem silently_calmly {x : ServiceM α} (h : Calmly x) : Calmly (silently x) :=
  Holds.bind h fun _ => Holds.unchanged

/-- Every operation on suggestions is calm. -/
theorem SuggestionOperation.program_calmly (op : SuggestionOperation) : Calmly op.program := by
  cases op with
  | listSuggestionsForDocument =>
      exact silently_calmly (SuggestionService.listSuggestionsForDocument_calmly _ _ _ _ _)
  | getSuggestionForDocument =>
      exact silently_calmly (SuggestionService.getSuggestionForDocument_calmly _ _ _)
  | countByDocumentAndStatus =>
      exact silently_calmly (SuggestionService.countByDocumentAndStatus_calmly _ _)
  | resetSuggestion => exact silently_calmly (SuggestionService.resetSuggestion_calmly _ _ _)
  | patchSuggestions =>
      exact silently_calmly (SuggestionService.patchSuggestions_calmly _ _ _ _ _ _)
  | finalizeReview => exact silently_calmly (SuggestionService.finalizeReview_calmly _ _ _)
  | atomicReviewSave =>
      exact silently_calmly (SuggestionService.atomicReviewSave_calmly _ _ _ _ _ _ _ _ _)

/-- Every operation on jobs is calm. -/
theorem JobOperation.program_calmly (hasQueue : Bool) (op : JobOperation) :
    Calmly (op.program hasQueue) := by
  cases op with
  | findJobByIdempotencyKey =>
      exact silently_calmly (AnalysisJobService.findJobByIdempotencyKey_calmly _ _ _)
  | createJob => exact silently_calmly (AnalysisJobService.createJob_calmly _ _ _ _)
  | dispatchJob => exact silently_calmly (AnalysisJobService.dispatchJob_calmly _ _)
  | cancelJob => exact silently_calmly (AnalysisJobService.cancelJob_calmly _ _ _)
  | revokeCeleryTask => exact AnalysisJobService.revokeCeleryTask_calmly _ _
  | getActiveForDocument =>
      exact silently_calmly (AnalysisJobService.getActiveForDocument_calmly _ _)
  | getJob => exact silently_calmly (AnalysisJobService.getJob_calmly _ _ _)
  | resetAnalysis => exact silently_calmly (AnalysisJobService.resetAnalysis_calmly _ _)
  | bulkCreateJobsForProject =>
      exact silently_calmly (AnalysisJobService.bulkCreateJobsForProject_calmly _ _ _ _)

/-- A whole operation, whatever comes after it. -/
theorem Calmly.followed {x : ServiceM Unit} (h : Calmly x) {es : History Answer}
    (hes : On Calm [] es) {g : Outbox → Prog Answer Empty Outboxes}
    (hg : ∀ es, On Calm [] es → (g []).Under FailsCleanly EventsCommitted (fun _ _ => True) es) :
    ((x []).bind fun r => g r.2).Under FailsCleanly EventsCommitted (fun _ _ => True) es := by
  refine Prog.Under.bind (Prog.Under.mono ?_ (h [] es hes))
  rintro (e | ⟨r, o⟩) es' hend
  · exact e.elim
  · have hcalm : On Calm o es' := by
      cases r with
      | error e => exact hend
      | ok a => exact hend
    obtain ⟨hevents, rfl, hpending⟩ := hcalm
    exact hg es' ⟨hevents, rfl, hpending⟩

/-- Serving one operation after another, all events are committed at every moment. -/
theorem serve_under (hasQueue : Bool) (ops : List Operation) : ∀ es : History Answer,
    On Calm [] es →
      (serve hasQueue ops {}).Under FailsCleanly EventsCommitted (fun _ _ => True) es := by
  induction ops with
  | nil => exact fun _ _ => trivial
  | cons op rest ih =>
      intro es hes
      cases op with
      | inl op =>
          exact op.program_calmly.followed (g := fun o => serve hasQueue rest { suggestions := o })
            hes ih
      | inr op =>
          exact (op.program_calmly hasQueue).followed
            (g := fun o => serve hasQueue rest { jobs := o }) hes ih

/-- **No event without its commit**: in every run of operations of the two services in which no
call fails while a change of status is pending (the commit and the conflict of `create_for_document`
may), at every moment the published events belong to committed changes, in the order of the
commits. -/
theorem no_phantom_events (hasQueue : Bool) (ops : List Operation)
    {q : Prog Answer Empty Outboxes} {es : History Answer}
    (hrun : (serve hasQueue ops {}).Reaches [] q es) (hclean : Meets FailsCleanly es) :
    EventsCommitted es :=
  (Prog.Under.reaches (serve_under hasQueue ops [] ⟨List.Sublist.refl _, rfl, rfl⟩)
    (List.Sublist.refl _) hrun hclean).1

/-! ## Two runs -/

/-- A document with a finished analysis. -/
def analysed (n : ℕ) (status : DocumentStatus) : Loaded Document :=
  ⟨(1, n),
    { projectId := (9, 9), name := "a.txt", format := .txt, storageKey := "a", sizeBytes := 1
      status, currentAnalysisJobId := some (5, n) }⟩

/-- An accepted suggestion of that analysis. -/
def decided (n : ℕ) : Loaded Suggestion :=
  ⟨(7, n),
    { analysisJobId := (5, n), documentId := (1, n), sectionRef := [], changeType := .add
      status := .accepted }⟩

/-- The review of a document is finished, and its event published. -/
theorem finalized_published :
    ∃ es : History Answer, (ledger es).published = [((1, 2), .ready)] ∧ EventsCommitted es := by
  have h₀ := @Prog.Reaches.refl _ _ _ _ (serve true [.inl (.finalizeReview (9, 9) (1, 2) false)] {})
    []
  have h₁ := h₀.step (.ok (some (analysed 2 .awaitingApproval)))
  have h₂ := h₁.step (.ok (0 : ℕ))
  have h₃ := h₂.step (.ok ())
  have h₄ := h₃.step (.ok ())
  have h₅ := h₄.step (.ok (some (8, 8)))
  have h₆ := h₅.step (.ok ())
  refine ⟨_, ?_, no_phantom_events true _ h₆ ?_⟩
  · rfl
  · simp [Meets, FailsCleanly, fails]

/-- A reset is lost after the document was reopened, and the next operation publishes its event. -/
theorem phantom_event :
    ¬ ∀ (hasQueue : Bool) (ops : List Operation) (q : Prog Answer Empty Outboxes)
      (es : History Answer), (serve hasQueue ops {}).Reaches [] q es → EventsCommitted es := by
  intro hall
  have h₀ := @Prog.Reaches.refl _ _ _ _ (serve true [.inl (.resetSuggestion (9, 9) (1, 1) (7, 1)),
    .inl (.finalizeReview (9, 9) (1, 2) false)] {}) []
  have h₁ := h₀.step (.ok (some (analysed 1 .ready)))
  have h₂ := h₁.step (.ok (some (decided 1)))
  have h₃ := h₂.step (.ok true)
  have h₄ := h₃.step (.ok none)
  have h₅ := h₄.step (.ok ())
  have h₆ := h₅.step (.ok (some (analysed 2 .awaitingApproval)))
  have h₇ := h₆.step (.ok (0 : ℕ))
  have h₈ := h₇.step (.ok ())
  have h₉ := h₈.step (.ok ())
  have h₁₀ := h₉.step (.ok (some (8, 8)))
  have h₁₁ := h₁₀.step (.ok ())
  have hsub := hall true _ _ _ h₁₁
  have hmem := hsub.subset (a := ((1, 1), DocumentStatus.awaitingApproval)) List.mem_cons_self
  revert hmem
  decide

end SyncBack.Publishing
