import SyncBack.Effects.Stateful
import SyncBack.Infrastructure.Repositories

/-!
# Events about the status of a document

The services below the routers call ports: repositories, the unit of work, the queue, the publisher
of events. Here a call is a command, and its answer comes from outside: a value, or an exception.
`DocumentEventOutbox` is the state of a service between its calls. It collects the changes of status
of one operation and publishes them after the commit; a service without a publisher collects nothing
and is left out.

Source: `app/domain/services/document_events.py`, `app/domain/interfaces/*.py`.
-/

namespace SyncBack.Publishing

open Effects

/-- What a call raises: an `Exception` with its text, or another `BaseException`. -/
inductive Raised where
  | exception (text : String)
  | baseException
  deriving DecidableEq

/-- Source: `DocumentStatusChanged`. -/
structure DocumentStatusChanged where
  documentId : Uuid
  projectId : Uuid
  ownerId : Uuid
  status : DocumentStatus
  currentAnalysisJobId : Option Uuid
  deriving DecidableEq

/-- The calls of the ports. -/
inductive Call where
  | documentsGetById (documentId : Uuid)
  | documentsUpdateStatus (documentId : Uuid) (status : DocumentStatus)
  | documentsCompareAndSetStatus (documentId : Uuid) (analysisJobId : Option Uuid)
      (expected target : DocumentStatus)
  | documentsSetCurrentJob (documentId : Uuid) (jobId : Option Uuid)
  | documentsCompareAndIncrementReviewVersion (documentId : Uuid) (expectedVersion : ℤ)
  | documentsListIdsByStatuses (projectId : Uuid) (statuses : List DocumentStatus)
  | suggestionsGetById (suggestionId : Uuid)
  | suggestionsListWithTotal (jobId : Uuid) (limit offset : ℕ) (status : Option SuggestionStatus)
  | suggestionsCountByAnalysisJobAndStatus (jobId : Uuid) (status : SuggestionStatus)
  | suggestionsResetStatus (suggestionId : Uuid)
  | suggestionsResetToPending (jobId : Uuid) (ids : Option (List Uuid))
  | suggestionsBulkUpdateStatus (decisions : ReviewDecisions)
  | suggestionsBulkAcceptAll (jobId userId : Uuid)
  | suggestionsBulkRejectAll (jobId userId : Uuid)
  | jobsGetById (jobId : Uuid)
  | jobsGetByIdempotencyKey (documentId : Uuid) (idempotencyKey : String)
  | jobsGetActiveByDocumentId (documentId : Uuid)
  | jobsCreateForDocument (documentId : Uuid) (status : AnalysisJobStatus)
      (idempotencyKey : Option String)
  | jobsUpdateStatus (jobId : Uuid) (status : AnalysisJobStatus)
      (errorCode errorMessage : Option String)
  | jobsSetCeleryTaskId (jobId : Uuid) (taskId : String)
  | jobsListByIds (jobIds : List Uuid)
  | sourcesListForAnalysis (projectId documentId : Uuid)
  | projectsGetById (projectId : Uuid)
  | exportAndSave (documentId : Uuid)
  | enqueue (jobId : Uuid) (sourceIds : List Uuid)
  | revoke (taskId : String)
  | commit
  | rollback
  | publish (event : DocumentStatusChanged)

/-- What a call returns. An object that a call only changes is not returned again; of a project its
owner is read, of sources and accepted suggestions their identifiers. -/
def Call.Value : Call → Type
  | .documentsGetById _ => Option (Loaded Document)
  | .documentsCompareAndSetStatus _ _ _ _ => Bool
  | .documentsCompareAndIncrementReviewVersion _ _ => Option (Loaded Document)
  | .documentsListIdsByStatuses _ _ => List Uuid
  | .suggestionsGetById _ => Option (Loaded Suggestion)
  | .suggestionsListWithTotal _ _ _ _ => List (Loaded Suggestion) × ℕ
  | .suggestionsCountByAnalysisJobAndStatus _ _ => ℕ
  | .suggestionsResetStatus _ => Option (Loaded Suggestion)
  | .suggestionsResetToPending _ _ => List Uuid
  | .suggestionsBulkUpdateStatus _ => ℕ
  | .suggestionsBulkAcceptAll _ _ | .suggestionsBulkRejectAll _ _ => List Uuid
  | .jobsGetById _ | .jobsGetByIdempotencyKey _ _ => Option (Loaded AnalysisJob)
  | .jobsGetActiveByDocumentId _ => Option (Loaded AnalysisJob)
  -- `none` is an `AnalysisJobConflictError`
  | .jobsCreateForDocument _ _ _ => Option (Loaded AnalysisJob)
  | .jobsUpdateStatus _ _ _ _ | .jobsSetCeleryTaskId _ _ => Loaded AnalysisJob
  | .jobsListByIds _ => List (Loaded AnalysisJob)
  | .sourcesListForAnalysis _ _ => List Uuid
  | .projectsGetById _ => Option Uuid
  | .enqueue _ _ => String
  | _ => Unit

/-- The answer to a call. -/
abbrev Answer (c : Call) : Type := Except Raised c.Value

/-- The exceptions that leave an operation. -/
inductive ServiceError where
  | domain (e : DomainError)
  | raised (r : Raised)

/-- Source: `_PendingStatusChange`. -/
structure PendingStatusChange where
  documentId : Uuid
  projectId : Uuid
  status : DocumentStatus
  currentAnalysisJobId : Option Uuid

/-- `DocumentEventOutbox._pending`. -/
abbrev Outbox := List PendingStatusChange

/-- The operations of a service, over its outbox. -/
abbrev ServiceM := Stateful Answer Outbox ServiceError

/-- A call within a `try` statement. -/
def attempt (c : Call) : ServiceM (Except Raised c.Value) := Stateful.call c

/-- A call whose exception is passed on. -/
def ask (c : Call) : ServiceM c.Value := do
  match ← attempt c with
  | .ok value => pure value
  | .error r => throw (.raised r)

/-- Raise an exception of the domain. -/
def fail {α : Type} (e : DomainError) : ServiceM α := throw (.domain e)

/-- `async with self._uow`: an exception rolls back, and the rollback itself works. -/
def withUow {α : Type} (body : ServiceM α) : ServiceM α :=
  tryCatch body fun e => do
    let _ ← attempt .rollback
    throw e

namespace DocumentEventOutbox

/-- Source: `DocumentEventOutbox.record`. -/
def record (document : Loaded Document) : ServiceM Unit :=
  Stateful.modify fun pending => pending ++
    [{ documentId := document.id
       projectId := document.row.projectId
       status := document.row.status
       currentAnalysisJobId := document.row.currentAnalysisJobId }]

/-- Source: `DocumentEventOutbox.discard`. -/
def discard : ServiceM Unit := Stateful.modify fun _ => []

/-- One event of `flush`: an `Exception` of the publisher is logged. -/
def publish (change : PendingStatusChange) (ownerId : Uuid) : ServiceM Unit := do
  let published ← attempt (.publish
    { documentId := change.documentId
      projectId := change.projectId
      ownerId
      status := change.status
      currentAnalysisJobId := change.currentAnalysisJobId })
  match published with
  | .error .baseException => throw (.raised .baseException)
  | _ => pure ()

/-- The loop of `flush`, with the owners found so far. -/
def flushEach : Outbox → List (Uuid × Uuid) → ServiceM Unit
  | [], _ => pure ()
  | change :: rest, owners =>
      match owners.lookup change.projectId with
      | some ownerId => do
          publish change ownerId
          flushEach rest owners
      | none => do
          match ← ask (.projectsGetById change.projectId) with
          | none => flushEach rest owners
          | some ownerId => do
              publish change ownerId
              flushEach rest ((change.projectId, ownerId) :: owners)

/-- Source: `DocumentEventOutbox.flush`. -/
def flush : ServiceM Unit := do
  let pending ← Stateful.modifyGet fun pending => (pending, [])
  flushEach pending []

end DocumentEventOutbox

/-- Source: `SuggestionService._commit`, and the same in `AnalysisJobService`. -/
def commit : ServiceM Unit := do
  tryCatch (ask .commit) fun e => do
    DocumentEventOutbox.discard
    throw e
  DocumentEventOutbox.flush

/-- `DocumentLifecycle.transition`, which may raise. -/
def documentTransition (current target : DocumentStatus) : ServiceM DocumentStatus :=
  match DocumentLifecycle.transition current target with
  | some status => pure status
  | none => fail (.invalidDocumentStatus (.documentTransition current target))

/-- `AnalysisJobLifecycle.transition`, which may raise. -/
def jobTransition (current target : AnalysisJobStatus) : ServiceM AnalysisJobStatus :=
  match AnalysisJobLifecycle.transition current target with
  | some status => pure status
  | none => fail (.invalidDocumentStatus (.jobTransition current target))

/-- The document with its new status: the object in the session, which the call has changed. -/
def withStatus (document : Loaded Document) (status : DocumentStatus) : Loaded Document :=
  ⟨document.id, { document.row with status }⟩

/-- Change the status of the loaded document and record that: the body of
`AnalysisJobService._set_document_status` and of `SuggestionService._finish_review`. -/
def setDocumentStatus (document : Loaded Document) (target : DocumentStatus) :
    ServiceM (Loaded Document) := do
  let status ← documentTransition document.row.status target
  ask (.documentsUpdateStatus document.id status)
  DocumentEventOutbox.record (withStatus document status)
  pure (withStatus document status)

/-- Read a document and check its project: `SuggestionService._get_document_or_raise`, and inline in
`AnalysisJobService`. -/
def getDocumentOrRaise (projectId documentId : Uuid) : ServiceM (Loaded Document) := do
  match ← ask (.documentsGetById documentId) with
  | some document =>
      if document.row.projectId = projectId then pure document
      else fail (.documentNotFound s!"Документ {documentId} не найден в проекте {projectId}")
  | none => fail (.documentNotFound s!"Документ {documentId} не найден в проекте {projectId}")

end SyncBack.Publishing
