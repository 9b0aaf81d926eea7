import SyncBack.Infrastructure.Repositories

/-!
# The analysis job service

The operations that create, dispatch and cancel a job and that reset a review, each as the program
of one session. The event outbox publishes after a commit and touches no modelled row, so it is
left out.

* `createJob` — the checks are not atomic with the insert; the unique indexes decide a race;
* `dispatchJob` — three transactions: `dispatched`, the call of the queue outside any of them, and
  the task id, or `failed` when the call of the queue raised;
* `cancelJob`, `resetAnalysis` — one transaction each.

Source: `app/domain/services/analysis_job_service.py`.
-/

namespace SyncBack

open Txn Session

/-- What the call of the queue does: it returns a task id, or it raises, and then the message may
have reached the broker all the same. Source: `AnalysisQueue.enqueue`. -/
inductive EnqueueRun where
  | accepted (taskId : String)
  | failed (message : String) (delivered : Bool)

/-- The outcome of `_create_job_once`: the job, and whether it was created now. The document is
kept for the caller's session. -/
inductive CreateOutcome where
  | created (job : Loaded AnalysisJob) (document : Loaded Document)
  | existing (job : Loaded AnalysisJob)

namespace Session

/-- `DocumentLifecycle.transition` as a call that may raise. -/
def documentTransition (current target : DocumentStatus) : Session DocumentStatus :=
  match DocumentLifecycle.transition current target with
  | some status => pure status
  | none => throw (.invalidDocumentStatus (.documentTransition current target))

/-- `AnalysisJobLifecycle.transition` as a call that may raise. -/
def jobTransition (current target : AnalysisJobStatus) : Session AnalysisJobStatus :=
  match AnalysisJobLifecycle.transition current target with
  | some status => pure status
  | none => throw (.invalidDocumentStatus (.jobTransition current target))

end Session

/-- Read a document and check its project.
Source: `SuggestionService._get_document_or_raise`, and inline in `AnalysisJobService`. -/
def getDocumentOrRaise (projectId documentId : Uuid) : Session (Loaded Document) := do
  let found ← DocumentRepository.getById documentId
  match found with
  | some document =>
      if document.row.projectId = projectId then pure document
      else throw (.documentNotFound s!"Документ {documentId} не найден в проекте {projectId}")
  | none => throw (.documentNotFound s!"Документ {documentId} не найден в проекте {projectId}")

namespace AnalysisJobService

/-! ## Helpers -/

/-- Source: `AnalysisJobService._set_document_status`. -/
def setDocumentStatus (document : Loaded Document) (target : DocumentStatus) (basis : Basis) :
    Session (Loaded Document) := do
  let status ← documentTransition document.row.status target
  DocumentRepository.updateStatus document status basis

/-- Change the status of the job and, if the session sees it as the current one, the status of
its document. Source: `AnalysisJobService._set_job_status`. -/
def setJobStatus (job : Loaded AnalysisJob) (document : Loaded Document)
    (target : AnalysisJobStatus) (errorCode errorMessage : Option String) :
    Session (Loaded AnalysisJob × Loaded Document) := do
  let status ← jobTransition job.row.status target
  let job ← AnalysisJobRepository.updateStatus job status errorCode errorMessage
  if document.row.currentAnalysisJobId = some job.id then do
    let document ← setDocumentStatus document
      (AnalysisJobLifecycle.documentStatusFor target false)
      { currentJob := some job.id, documentStatus := some document.row.status }
    pure (job, document)
  else pure (job, document)

/-- The document of a job, or the exception for a missing one. -/
def documentOf (documentId : Uuid) (held : Option (Loaded Document)) :
    Session (Loaded Document) := do
  let found ← getHeld held (DocumentRepository.getById documentId)
  match found with
  | some document => pure document
  | none => throw (.documentNotFound s!"Документ {documentId} не найден")

/-- Source: `AnalysisJobService._get_job`; the document stays in the session. -/
def getJob (projectId documentId jobId : Uuid) :
    Session (Loaded Document × Loaded AnalysisJob) := do
  let document ← getDocumentOrRaise projectId documentId
  let found ← AnalysisJobRepository.getById jobId
  match found with
  | some job =>
      if job.row.documentId = documentId then pure (document, job)
      else throw (.analysisJobNotFound s!"Задача {jobId} не найдена для документа {documentId}")
  | none => throw (.analysisJobNotFound s!"Задача {jobId} не найдена для документа {documentId}")

/-! ## Creating a job -/

/-- The lookup by key of `_create_job_once` and of `_raise_create_conflict`: none without a key. -/
def findByKey (documentId : Uuid) (idempotencyKey : Option String) :
    Session (Option (Loaded AnalysisJob)) :=
  match idempotencyKey with
  | some key => AnalysisJobRepository.getByIdempotencyKey documentId key
  | none => pure none

/-- The end of `_create_job_once`, after its checks: the document becomes a draft, the job is
inserted and becomes the current one. -/
def storeJob (document : Loaded Document) (idempotencyKey : Option String) :
    Session CreateOutcome := do
  let document ←
    (if document.row.status = .draft then pure document
    else setDocumentStatus document .draft { documentStatus := some document.row.status })
  let job ← AnalysisJobRepository.createForDocument document .pending idempotencyKey
  let document ← DocumentRepository.setCurrentJob document (some job.id)
  commit
  pure (.created job document)

/-- Source: `AnalysisJobService._create_job_once`. -/
def createJobOnce (projectId documentId : Uuid) (idempotencyKey : Option String) (force : Bool) :
    Session CreateOutcome :=
  withUow do
    let document ← getDocumentOrRaise projectId documentId
    let existing ← findByKey documentId idempotencyKey
    match existing with
    | some job => pure (.existing job)
    | none =>
        if DocumentLifecycle.canStartAnalysis document.row.status = true then do
          let active ← AnalysisJobRepository.getActiveByDocumentId document.id
          match active with
          | some active =>
              -- a rival with the same key may have committed after the lookup by key
              if idempotencyKey ≠ none ∧ active.row.idempotencyKey = idempotencyKey then
                pure (.existing active)
              else throw .analysisAlreadyRunning
          | none =>
              if DocumentLifecycle.analysisNeedsConfirmation document.row.status = true ∧
                  force = false then
                throw .analysisConfirmationRequired
              else storeJob document idempotencyKey
        else throw (.invalidDocumentStatus (.cannotStartAnalysis document.row.status))

/-- Source: `AnalysisJobService._raise_create_conflict`. -/
def raiseCreateConflict (documentId : Uuid) (idempotencyKey : Option String) :
    Session CreateOutcome := do
  let existing ← withUow (findByKey documentId idempotencyKey)
  match existing with
  | some job => throw (.analysisJobAlreadyExists job.id job.row)
  | none => throw .analysisAlreadyRunning

/-- Source: `AnalysisJobService.create_job`; the document stays in the session. -/
def createJob (projectId documentId : Uuid) (idempotencyKey : Option String) (force : Bool) :
    Session (Loaded AnalysisJob × Loaded Document) := do
  let outcome ← Prog.tryCatch (createJobOnce projectId documentId idempotencyKey force) fun
    | .analysisJobConflict => raiseCreateConflict documentId idempotencyKey
    | e => throw e
  match outcome with
  | .created job document => pure (job, document)
  | .existing job => throw (.analysisJobAlreadyExists job.id job.row)

/-! ## Dispatching and cancelling a job -/

/-- Source: `AnalysisJobService._mark_queue_unavailable`. -/
def markQueueUnavailable (job : Loaded AnalysisJob) (held : Option (Loaded Document))
    (errorMessage : String) : Session (Loaded AnalysisJob) :=
  withUow do
    let document ← documentOf job.row.documentId held
    let (job, _) ← setJobStatus job document .failed (some "QUEUE_UNAVAILABLE") (some errorMessage)
    commit
    pure job

/-- Source: `AnalysisJobService.dispatch_job`. -/
def dispatchJob (job : Loaded AnalysisJob) (held : Option (Loaded Document)) (run : EnqueueRun) :
    Session (Loaded AnalysisJob) :=
  if AnalysisJobLifecycle.canDispatch job.row.status = true then do
    let (job, document, sourceIds) ← withUow do
      let document ← documentOf job.row.documentId held
      let sourceIds ← SourceRepository.listForAnalysis document.row.projectId document.id
      let (job, document) ← setJobStatus job document .dispatched none none
      commit
      pure (job, document, sourceIds)
    match run with
    | .accepted taskId => do
        send (.analysis job.id sourceIds)
        withUow do
          let job ← AnalysisJobRepository.setCeleryTaskId job taskId
          commit
          pure job
    | .failed message delivered => do
        (if delivered = true then send (.analysis job.id sourceIds) else pure ())
        -- the document of the first transaction is still referred to
        markQueueUnavailable job (some document) message
  else throw (.invalidDocumentStatus (.cannotDispatch job.row.status))

/-- Source: `AnalysisJobService.cancel_job`. -/
def cancelJob (projectId documentId jobId : Uuid) (held : Bool) : Session (Loaded AnalysisJob) :=
  withUow do
    let (document, job) ← getJob projectId documentId jobId
    if job.row.status = .cancelled then pure job
    else if AnalysisJobLifecycle.canCancel job.row.status = true then do
      let document ← documentOf documentId (if held = true then some document else none)
      let (job, _) ← setJobStatus job document .cancelled (some "ANALYSIS_CANCELLED")
        (some "Анализ отменён")
      commit
      pure job
    else throw .analysisJobNotCancellable

/-! ## The start of an analysis, and the reset of its review -/

/-- Source: `AnalysisJobService.find_job_by_idempotency_key`. -/
def findJobByIdempotencyKey (projectId documentId : Uuid) (idempotencyKey : String) :
    Session (Option (Loaded AnalysisJob)) :=
  withUow do
    let found ← DocumentRepository.getById documentId
    match found with
    | some document =>
        if document.row.projectId = projectId then
          AnalysisJobRepository.getByIdempotencyKey documentId idempotencyKey
        else pure none
    | none => pure none

/-- Create a job and dispatch it in one session; `held` says whether the document that `create_job`
loaded is still referred to when `dispatch_job` asks for it.
Source: `start_analysis_job` in `app/api/v1/routers/analysis_jobs.py`. -/
def startAnalysisJob (projectId documentId : Uuid) (idempotencyKey : Option String) (force : Bool)
    (held : Bool) (run : EnqueueRun) : Session (Loaded AnalysisJob) := do
  let existing ←
    (match idempotencyKey with
    | some key => if key = "" then pure none else findJobByIdempotencyKey projectId documentId key
    | none => pure none)
  match existing with
  | some job => pure job
  | none => do
      let (job, document) ← createJob projectId documentId idempotencyKey force
      dispatchJob job (if held = true then some document else none) run

/-- Source: `AnalysisJobService.reset_analysis`. -/
def resetAnalysis (projectId documentId : Uuid) : Session (ℕ × Loaded Document) :=
  withUow do
    let document ← getDocumentOrRaise projectId documentId
    if DocumentLifecycle.canResetReview document.row.status = true then
      match document.row.currentAnalysisJobId with
      | none => throw (.analysisJobNotFound "У документа нет активного анализа для сброса")
      | some jobId => do
          let basis : Basis :=
            { currentJob := some jobId, documentStatus := some document.row.status }
          let resetIds ← SuggestionRepository.resetToPending jobId none basis
          let document ← setDocumentStatus document .awaitingApproval basis
          commit
          pure (resetIds.length, document)
    else throw (.invalidDocumentStatus (.cannotReset document.row.status))

end AnalysisJobService

end SyncBack
