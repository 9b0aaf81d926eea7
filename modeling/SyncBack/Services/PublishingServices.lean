import SyncBack.Services.DocumentEvents
import SyncBack.Services.SuggestionService

/-!
# The services that publish events

All public operations of `SuggestionService` and of `AnalysisJobService`, as programs over the calls
of their ports and over the outbox of the instance.

Source: `app/domain/services/suggestion_service.py`, `app/domain/services/analysis_job_service.py`.
-/

namespace SyncBack.Publishing

open SyncBack.SuggestionService (decisionsOf)

/-! ## Reviews -/

namespace SuggestionService

/-- Source: `SuggestionService._assert_awaiting_approval`. -/
def assertAwaitingApproval (document : Loaded Document) : ServiceM Unit :=
  if DocumentLifecycle.canReview document.row.status = true then pure ()
  else fail (.invalidDocumentStatus .notAwaitingApproval)

/-- Source: `SuggestionService._assert_decisions_resettable`. -/
def assertDecisionsResettable (document : Loaded Document) : ServiceM Unit :=
  if DocumentLifecycle.canResetReview document.row.status = true then pure ()
  else fail (.invalidDocumentStatus .notResettable)

/-- Source: `SuggestionService._assert_has_active_job`. -/
def assertHasActiveJob (document : Loaded Document) : ServiceM Uuid :=
  match document.row.currentAnalysisJobId with
  | some jobId => pure jobId
  | none => fail (.reviewNotComplete "У документа отсутствует текущий результат анализа")

/-- Source: `SuggestionService._get_suggestion_for_document`. -/
def getSuggestionOf (document : Loaded Document) (suggestionId : Uuid) :
    ServiceM (Loaded Suggestion) := do
  match ← ask (.suggestionsGetById suggestionId) with
  | some suggestion =>
      if some suggestion.row.analysisJobId = document.row.currentAnalysisJobId then pure suggestion
      else fail (.staleSuggestionJob suggestionId suggestion.row.analysisJobId)
  | none => fail (.suggestionNotFound suggestionId)

/-- Source: `SuggestionService._reopen_review`; the statement changes the loaded object too. -/
def reopenReview (document : Loaded Document) : ServiceM Unit :=
  if document.row.status = .ready then do
    let target ← documentTransition document.row.status .awaitingApproval
    let reopened : Bool ← ask (.documentsCompareAndSetStatus document.id
      document.row.currentAnalysisJobId .ready target)
    if reopened = true then DocumentEventOutbox.record (withStatus document target)
    else fail (.invalidDocumentStatus .changedConcurrently)
  else pure ()

/-- Source: `SuggestionService._finish_review`. -/
def finishReview (document : Loaded Document) : ServiceM (Loaded Document) :=
  setDocumentStatus document .ready

/-- Source: `SuggestionService._run_export`. -/
def runExport (document : Loaded Document) : ServiceM Unit := do
  match ← attempt (.exportAndSave document.id) with
  | .ok _ => pure ()
  | .error (.exception _) =>
      fail (.reviewNotComplete "Не удалось применить утверждённые правки к документу.")
  | .error .baseException => throw (.raised .baseException)

/-- The export, if there is a service for it. -/
def exportIfAsked (exporting : Bool) (document : Loaded Document) : ServiceM Unit :=
  if exporting = true then runExport document else pure ()

/-- Source: `SuggestionService.list_suggestions_for_document`. -/
def listSuggestionsForDocument (projectId documentId : Uuid) (limit offset : ℕ)
    (statusFilter : Option SuggestionStatus) : ServiceM (List (Loaded Suggestion) × ℕ) :=
  withUow do
    let document ← getDocumentOrRaise projectId documentId
    match document.row.currentAnalysisJobId with
    | none => pure ([], 0)
    | some jobId => ask (.suggestionsListWithTotal jobId limit offset statusFilter)

/-- Source: `SuggestionService.get_suggestion_for_document`. -/
def getSuggestionForDocument (projectId documentId suggestionId : Uuid) :
    ServiceM (Loaded Suggestion) :=
  withUow do
    let document ← getDocumentOrRaise projectId documentId
    getSuggestionOf document suggestionId

/-- Source: `SuggestionService.count_by_document_and_status`. -/
def countByDocumentAndStatus (projectId documentId : Uuid) : ServiceM (ℕ × ℕ × ℕ) :=
  withUow do
    let document ← getDocumentOrRaise projectId documentId
    match document.row.currentAnalysisJobId with
    | none => pure (0, 0, 0)
    | some jobId => do
        let pending ← ask (.suggestionsCountByAnalysisJobAndStatus jobId .pending)
        let accepted ← ask (.suggestionsCountByAnalysisJobAndStatus jobId .accepted)
        let rejected ← ask (.suggestionsCountByAnalysisJobAndStatus jobId .rejected)
        pure (pending, accepted, rejected)

/-- Source: `SuggestionService.reset_suggestion`. -/
def resetSuggestion (projectId documentId suggestionId : Uuid) : ServiceM (Loaded Suggestion) :=
  withUow do
    let document ← getDocumentOrRaise projectId documentId
    assertDecisionsResettable document
    let suggestion ← getSuggestionOf document suggestionId
    if suggestion.row.status = .pending then
      fail (.suggestionResetNotAllowed
        s!"Правка {suggestionId} уже в статусе PENDING — сбрасывать нечего")
    else do
      reopenReview document
      match ← ask (.suggestionsResetStatus suggestion.id) with
      | some updated => do
          commit
          pure updated
      | none => fail (.suggestionResetNotAllowed (s!"Правка {suggestionId} была сброшена " ++
          "параллельным запросом. Обновите список правок и повторите."))

/-- Source: `SuggestionService._decide_pending`. -/
def decidePending (documentId jobId userId : Uuid) (targetStatus : SuggestionStatus)
    (ids : Option (List Uuid)) (filter : Option PatchFilter) : ServiceM (List Uuid) :=
  match ids with
  | some ids => do
      let uniqueIds := ids.eraseDups
      let updated : ℕ ← ask (.suggestionsBulkUpdateStatus
        { decisions := uniqueIds.map fun sid =>
            { suggestionId := sid, status := targetStatus, userId }
          documentId, userId, analysisJobId := jobId })
      if updated = uniqueIds.length then pure uniqueIds
      else fail (.suggestionAlreadyDecided
        "Часть правок не найдена в текущем анализе или уже обработана")
  | none =>
      if filter = some .decided then
        fail (.suggestionAlreadyDecided
          "Принять или отклонить можно только правки в статусе pending")
      else if targetStatus = .accepted then ask (.suggestionsBulkAcceptAll jobId userId)
      else ask (.suggestionsBulkRejectAll jobId userId)

/-- Source: `SuggestionService._reset_to_pending`. -/
def resetToPending (jobId : Uuid) (ids : Option (List Uuid)) (filter : Option PatchFilter) :
    ServiceM (List Uuid) :=
  match ids with
  | none =>
      if filter = some .pending then pure []
      else ask (.suggestionsResetToPending jobId none)
  | some ids => do
      let uniqueIds := ids.eraseDups
      let resetIds ← ask (.suggestionsResetToPending jobId (some uniqueIds))
      if resetIds.length = uniqueIds.length then pure resetIds
      else fail (.suggestionResetNotAllowed
        "Часть правок не найдена в текущем анализе или уже в статусе pending")

/-- The branches of `patch_suggestions` up to the reading of the document. -/
def applyPatch (document : Loaded Document) (documentId userId : Uuid)
    (targetStatus : SuggestionStatus) (ids : Option (List Uuid)) (filter : Option PatchFilter) :
    ServiceM (List Uuid) :=
  if targetStatus = .pending then do
    assertDecisionsResettable document
    let jobId ← assertHasActiveJob document
    let updatedIds ← resetToPending jobId ids filter
    if updatedIds = [] then pure updatedIds
    else do
      reopenReview document
      pure updatedIds
  else do
    assertAwaitingApproval document
    let jobId ← assertHasActiveJob document
    decidePending documentId jobId userId targetStatus ids filter

/-- Source: `SuggestionService.patch_suggestions`. -/
def patchSuggestions (projectId documentId userId : Uuid) (targetStatus : SuggestionStatus)
    (ids : Option (List Uuid)) (filter : Option PatchFilter) : ServiceM PatchSuggestionsResult :=
  if ids.isNone = filter.isNone then fail (.valueError "Укажите ровно одно из: ids или filter")
  else withUow do
    let document ← getDocumentOrRaise projectId documentId
    let updatedIds ← applyPatch document documentId userId targetStatus ids filter
    let refreshed ← ask (.documentsGetById documentId)
    commit
    pure { document := refreshed.getD document, updatedIds }

/-- Source: `SuggestionService.finalize_review`. -/
def finalizeReview (projectId documentId : Uuid) (exporting : Bool) :
    ServiceM (Loaded Document) :=
  withUow do
    let document ← getDocumentOrRaise projectId documentId
    assertAwaitingApproval document
    let jobId ← assertHasActiveJob document
    let pendingCount : ℕ ← ask (.suggestionsCountByAnalysisJobAndStatus jobId .pending)
    if pendingCount = 0 then do
      exportIfAsked exporting document
      let document ← finishReview document
      commit
      pure document
    else fail (.reviewNotComplete
      s!"Нельзя завершить review: не рассмотрено предложений — {pendingCount}")

/-- The part of `atomic_review_save` under `if finalize`. -/
def finalizeSave (document : Loaded Document) (pendingCount : ℕ) (exporting : Bool) :
    ServiceM (Loaded Document) :=
  if pendingCount = 0 then do
    exportIfAsked exporting document
    finishReview document
  else fail (.reviewNotComplete s!"Нельзя завершить ревью: осталось правок — {pendingCount}")

/-- Source: `SuggestionService.atomic_review_save`. -/
def atomicReviewSave (projectId documentId userId : Uuid) (reviewVersion : ℤ)
    (acceptedIds rejectedIds : List Uuid) (finalize exporting : Bool)
    (editedTexts : Uuid → Option Text) : ServiceM ReviewSaveResult :=
  withUow do
    let document ← getDocumentOrRaise projectId documentId
    assertAwaitingApproval document
    let jobId ← assertHasActiveJob document
    let decisions := decisionsOf documentId userId jobId acceptedIds rejectedIds editedTexts
    match ← ask (.documentsCompareAndIncrementReviewVersion document.id reviewVersion) with
    | none => fail .optimisticLock
    | some document => do
        let updated : ℕ ← ask (.suggestionsBulkUpdateStatus decisions)
        if updated = decisions.decisions.length then do
          let pendingCount : ℕ ← ask (.suggestionsCountByAnalysisJobAndStatus jobId .pending)
          let document ←
            (if finalize = true then finalizeSave document pendingCount exporting
            else pure document)
          commit
          pure
            { document, acceptedCount := acceptedIds.length, rejectedCount := rejectedIds.length
              pendingCount, finalized := finalize }
        else fail (.suggestionAlreadyDecided
          "Часть правок не найдена в текущем анализе или уже обработана")

end SuggestionService

/-! ## Analysis jobs -/

namespace AnalysisJobService

/-- Source: `AnalysisJobService._set_job_status`. -/
def setJobStatus (job : Loaded AnalysisJob) (document : Loaded Document)
    (target : AnalysisJobStatus) (errorCode errorMessage : Option String) :
    ServiceM (Loaded AnalysisJob) := do
  let status ← jobTransition job.row.status target
  let job ← ask (.jobsUpdateStatus job.id status errorCode errorMessage)
  if document.row.currentAnalysisJobId = some job.id then do
    let _ ← setDocumentStatus document (AnalysisJobLifecycle.documentStatusFor target false)
    pure job
  else pure job

/-- The document of a job, or the exception for a missing one. -/
def documentOf (documentId : Uuid) : ServiceM (Loaded Document) := do
  match ← ask (.documentsGetById documentId) with
  | some document => pure document
  | none => fail (.documentNotFound s!"Документ {documentId} не найден")

/-- Source: `AnalysisJobService._get_job`. -/
def jobOf (projectId documentId jobId : Uuid) : ServiceM (Loaded AnalysisJob) := do
  let _ ← getDocumentOrRaise projectId documentId
  match ← ask (.jobsGetById jobId) with
  | some job =>
      if job.row.documentId = documentId then pure job
      else fail (.analysisJobNotFound s!"Задача {jobId} не найдена для документа {documentId}")
  | none => fail (.analysisJobNotFound s!"Задача {jobId} не найдена для документа {documentId}")

/-- A lookup that is made only with a key. -/
def findByKey (documentId : Uuid) (idempotencyKey : Option String) :
    ServiceM (Option (Loaded AnalysisJob)) :=
  match idempotencyKey with
  | some key => ask (.jobsGetByIdempotencyKey documentId key)
  | none => pure none

/-- Source: `AnalysisJobService.find_job_by_idempotency_key`. -/
def findJobByIdempotencyKey (projectId documentId : Uuid) (idempotencyKey : String) :
    ServiceM (Option (Loaded AnalysisJob)) :=
  withUow do
    match ← ask (.documentsGetById documentId) with
    | some document =>
        if document.row.projectId = projectId then
          ask (.jobsGetByIdempotencyKey documentId idempotencyKey)
        else pure none
    | none => pure none

/-- The end of `_create_job_once`: the document becomes a draft, and the job is stored. -/
def storeJob (document : Loaded Document) (idempotencyKey : Option String) :
    ServiceM (Loaded AnalysisJob) := do
  let document ←
    (if document.row.status = .draft then pure document else setDocumentStatus document .draft)
  match ← ask (.jobsCreateForDocument document.id .pending idempotencyKey) with
  | some job => do
      ask (.documentsSetCurrentJob document.id (some job.id))
      commit
      pure job
  | none => fail .analysisJobConflict

/-- The job, and whether it was created now. Source: `AnalysisJobService._create_job_once`. -/
def createJobOnce (projectId documentId : Uuid) (idempotencyKey : Option String) (force : Bool) :
    ServiceM (Loaded AnalysisJob × Bool) :=
  withUow do
    let document ← getDocumentOrRaise projectId documentId
    match ← findByKey documentId idempotencyKey with
    | some existing => pure (existing, false)
    | none =>
        if DocumentLifecycle.canStartAnalysis document.row.status = true then do
          match ← ask (.jobsGetActiveByDocumentId document.id) with
          | some active =>
              if idempotencyKey ≠ none ∧ active.row.idempotencyKey = idempotencyKey then
                pure (active, false)
              else fail .analysisAlreadyRunning
          | none =>
              if DocumentLifecycle.analysisNeedsConfirmation document.row.status = true ∧
                  force = false then
                fail .analysisConfirmationRequired
              else do
                let job ← storeJob document idempotencyKey
                pure (job, true)
        else fail (.invalidDocumentStatus (.cannotStartAnalysis document.row.status))

/-- Source: `AnalysisJobService._raise_create_conflict`. -/
def raiseCreateConflict {α : Type} (documentId : Uuid) (idempotencyKey : Option String) :
    ServiceM α := do
  match ← withUow (findByKey documentId idempotencyKey) with
  | some job => fail (.analysisJobAlreadyExists job.id job.row)
  | none => fail .analysisAlreadyRunning

/-- Source: `AnalysisJobService.create_job`. -/
def createJob (projectId documentId : Uuid) (idempotencyKey : Option String) (force : Bool) :
    ServiceM (Loaded AnalysisJob) := do
  let (job, created) ← tryCatch (createJobOnce projectId documentId idempotencyKey force) fun
    | .domain .analysisJobConflict => do
        DocumentEventOutbox.discard
        raiseCreateConflict documentId idempotencyKey
    | e => throw e
  if created = true then pure job else fail (.analysisJobAlreadyExists job.id job.row)

/-- Source: `AnalysisJobService._mark_queue_unavailable`. -/
def markQueueUnavailable (job : Loaded AnalysisJob) (errorMessage : String) :
    ServiceM (Loaded AnalysisJob) :=
  withUow do
    let document ← documentOf job.row.documentId
    let job ← setJobStatus job document .failed (some "QUEUE_UNAVAILABLE") (some errorMessage)
    commit
    pure job

/-- Source: `AnalysisJobService._require_queue`. -/
def requireQueue (hasQueue : Bool) : ServiceM Unit :=
  if hasQueue = true then pure ()
  else fail (.runtimeError "AnalysisJobService создан без очереди анализа")

/-- Source: `AnalysisJobService.dispatch_job`; `hasQueue` says whether the service has a queue. -/
def dispatchJob (hasQueue : Bool) (job : Loaded AnalysisJob) : ServiceM (Loaded AnalysisJob) :=
  if AnalysisJobLifecycle.canDispatch job.row.status = true then do
    requireQueue hasQueue
    let (job, sourceIds) ← withUow do
      let document ← documentOf job.row.documentId
      let sourceIds ← ask (.sourcesListForAnalysis document.row.projectId document.id)
      let job ← setJobStatus job document .dispatched none none
      commit
      pure (job, sourceIds)
    match ← attempt (.enqueue job.id sourceIds) with
    | .ok taskId => withUow do
        let job ← ask (.jobsSetCeleryTaskId job.id taskId)
        commit
        pure job
    | .error (.exception text) => markQueueUnavailable job text
    | .error .baseException => throw (.raised .baseException)
  else fail (.invalidDocumentStatus (.cannotDispatch job.row.status))

/-- Source: `AnalysisJobService.cancel_job`. -/
def cancelJob (projectId documentId jobId : Uuid) : ServiceM (Loaded AnalysisJob) :=
  withUow do
    let job ← jobOf projectId documentId jobId
    if job.row.status = .cancelled then pure job
    else if AnalysisJobLifecycle.canCancel job.row.status = true then do
      let document ← documentOf documentId
      let job ← setJobStatus job document .cancelled (some "ANALYSIS_CANCELLED")
        (some "Анализ отменён")
      commit
      pure job
    else fail .analysisJobNotCancellable

/-- Source: `AnalysisJobService.revoke_celery_task`. -/
def revokeCeleryTask (hasQueue : Bool) (celeryTaskId : String) : ServiceM Unit := do
  requireQueue hasQueue
  ask (.revoke celeryTaskId)

/-- Source: `AnalysisJobService.get_active_for_document`. -/
def getActiveForDocument (projectId documentId : Uuid) : ServiceM (Option (Loaded AnalysisJob)) :=
  withUow do
    match ← ask (.documentsGetById documentId) with
    | some document =>
        if document.row.projectId = projectId then ask (.jobsGetActiveByDocumentId documentId)
        else pure none
    | none => pure none

/-- Source: `AnalysisJobService.get_job`. -/
def getJob (projectId documentId jobId : Uuid) : ServiceM (Loaded AnalysisJob) :=
  withUow (jobOf projectId documentId jobId)

/-- Source: `AnalysisJobService.reset_analysis`. -/
def resetAnalysis (projectId documentId : Uuid) : ServiceM (ℕ × Loaded Document) :=
  withUow do
    let document ← getDocumentOrRaise projectId documentId
    if DocumentLifecycle.canResetReview document.row.status = true then
      match document.row.currentAnalysisJobId with
      | none => fail (.analysisJobNotFound "У документа нет активного анализа для сброса")
      | some jobId => do
          let resetIds ← ask (.suggestionsResetToPending jobId none)
          let document ← setDocumentStatus document .awaitingApproval
          commit
          pure (resetIds.length, document)
    else fail (.invalidDocumentStatus (.cannotReset document.row.status))

/-! ### Bulk start -/

/-- Source: `BulkSkipReason`. -/
inductive BulkSkipReason where
  | notFound
  | confirmationRequired
  | analysisRunning
  | invalidStatus
  deriving DecidableEq

/-- Source: `BulkJobOutcome`, without the text that is built from the exception. -/
structure BulkJobOutcome where
  documentId : Uuid
  job : Option (Loaded AnalysisJob) := none
  skipReason : Option BulkSkipReason := none

/-- The four `except` clauses of the loop. -/
def skipReasonOf : ServiceError → Option BulkSkipReason
  | .domain (.documentNotFound _) => some .notFound
  | .domain .analysisConfirmationRequired => some .confirmationRequired
  | .domain .analysisAlreadyRunning => some .analysisRunning
  | .domain (.invalidDocumentStatus _) => some .invalidStatus
  | _ => none

/-- `create_job` within the `try` of the loop: a job, or the reason to skip the document. -/
def tryCreate (projectId documentId : Uuid) (force : Bool) :
    ServiceM (Loaded AnalysisJob ⊕ BulkSkipReason) :=
  tryCatch (do
      let job ← createJob projectId documentId none force
      pure (.inl job)) fun e =>
    match skipReasonOf e with
    | some reason => pure (.inr reason)
    | none => throw e

/-- The loop of `bulk_create_jobs_for_project`. -/
def startEach (hasQueue : Bool) (projectId : Uuid) (force : Bool) :
    List Uuid → ServiceM (List BulkJobOutcome)
  | [] => pure []
  | documentId :: rest => do
      match ← tryCreate projectId documentId force with
      | .inl job => do
          let job ← dispatchJob hasQueue job
          let outcomes ← startEach hasQueue projectId force rest
          pure ({ documentId, job := some job } :: outcomes)
      | .inr reason => do
          let outcomes ← startEach hasQueue projectId force rest
          pure ({ documentId, skipReason := some reason } :: outcomes)

/-- Source: `AnalysisJobService._reload_jobs`. -/
def reloadJobs (outcomes : List BulkJobOutcome) : ServiceM (List BulkJobOutcome) :=
  let jobIds := outcomes.filterMap fun o => o.job.map Loaded.id
  if jobIds = [] then pure outcomes
  else do
    let jobs ← withUow (ask (.jobsListByIds jobIds))
    pure (outcomes.map fun o =>
      { o with job := o.job.map fun job =>
          (jobs.find? fun reloaded => reloaded.id = job.id).getD job })

/-- Source: `AnalysisJobService.bulk_create_jobs_for_project`. -/
def bulkCreateJobsForProject (hasQueue : Bool) (projectId : Uuid)
    (documentIds : Option (List Uuid)) (force : Bool) : ServiceM (List BulkJobOutcome) := do
  let targetIds ←
    (match documentIds with
    | none => withUow (ask (.documentsListIdsByStatuses projectId
        [.draft, .awaitingApproval, .ready]))
    | some documentIds => pure documentIds.eraseDups)
  let outcomes ← startEach hasQueue projectId force targetIds
  reloadJobs outcomes

end AnalysisJobService

/-! ## Sequences of operations -/

/-- The public operations of a `SuggestionService`. -/
inductive SuggestionOperation where
  | listSuggestionsForDocument (projectId documentId : Uuid) (limit offset : ℕ)
      (statusFilter : Option SuggestionStatus)
  | getSuggestionForDocument (projectId documentId suggestionId : Uuid)
  | countByDocumentAndStatus (projectId documentId : Uuid)
  | resetSuggestion (projectId documentId suggestionId : Uuid)
  | patchSuggestions (projectId documentId userId : Uuid) (targetStatus : SuggestionStatus)
      (ids : Option (List Uuid)) (filter : Option PatchFilter)
  | finalizeReview (projectId documentId : Uuid) (exporting : Bool)
  | atomicReviewSave (projectId documentId userId : Uuid) (reviewVersion : ℤ)
      (acceptedIds rejectedIds : List Uuid) (finalize exporting : Bool)
      (editedTexts : Uuid → Option Text)

/-- The public operations of an `AnalysisJobService`. -/
inductive JobOperation where
  | findJobByIdempotencyKey (projectId documentId : Uuid) (idempotencyKey : String)
  | createJob (projectId documentId : Uuid) (idempotencyKey : Option String) (force : Bool)
  | dispatchJob (job : Loaded AnalysisJob)
  | cancelJob (projectId documentId jobId : Uuid)
  | revokeCeleryTask (celeryTaskId : String)
  | getActiveForDocument (projectId documentId : Uuid)
  | getJob (projectId documentId jobId : Uuid)
  | resetAnalysis (projectId documentId : Uuid)
  | bulkCreateJobsForProject (projectId : Uuid) (documentIds : Option (List Uuid)) (force : Bool)

/-- An operation without its result. -/
def silently {α : Type} (x : ServiceM α) : ServiceM Unit := do
  let _ ← x
  pure ()

/-- The program of an operation. -/
def SuggestionOperation.program : SuggestionOperation → ServiceM Unit
  | .listSuggestionsForDocument projectId documentId limit offset statusFilter =>
      silently (SuggestionService.listSuggestionsForDocument projectId documentId limit offset
        statusFilter)
  | .getSuggestionForDocument projectId documentId suggestionId =>
      silently (SuggestionService.getSuggestionForDocument projectId documentId suggestionId)
  | .countByDocumentAndStatus projectId documentId =>
      silently (SuggestionService.countByDocumentAndStatus projectId documentId)
  | .resetSuggestion projectId documentId suggestionId =>
      silently (SuggestionService.resetSuggestion projectId documentId suggestionId)
  | .patchSuggestions projectId documentId userId targetStatus ids filter =>
      silently (SuggestionService.patchSuggestions projectId documentId userId targetStatus ids
        filter)
  | .finalizeReview projectId documentId exporting =>
      silently (SuggestionService.finalizeReview projectId documentId exporting)
  | .atomicReviewSave projectId documentId userId reviewVersion acceptedIds rejectedIds finalize
      exporting editedTexts =>
      silently (SuggestionService.atomicReviewSave projectId documentId userId reviewVersion
        acceptedIds rejectedIds finalize exporting editedTexts)

/-- The program of an operation. -/
def JobOperation.program (hasQueue : Bool) : JobOperation → ServiceM Unit
  | .findJobByIdempotencyKey projectId documentId idempotencyKey =>
      silently (AnalysisJobService.findJobByIdempotencyKey projectId documentId idempotencyKey)
  | .createJob projectId documentId idempotencyKey force =>
      silently (AnalysisJobService.createJob projectId documentId idempotencyKey force)
  | .dispatchJob job => silently (AnalysisJobService.dispatchJob hasQueue job)
  | .cancelJob projectId documentId jobId =>
      silently (AnalysisJobService.cancelJob projectId documentId jobId)
  | .revokeCeleryTask celeryTaskId => AnalysisJobService.revokeCeleryTask hasQueue celeryTaskId
  | .getActiveForDocument projectId documentId =>
      silently (AnalysisJobService.getActiveForDocument projectId documentId)
  | .getJob projectId documentId jobId =>
      silently (AnalysisJobService.getJob projectId documentId jobId)
  | .resetAnalysis projectId documentId =>
      silently (AnalysisJobService.resetAnalysis projectId documentId)
  | .bulkCreateJobsForProject projectId documentIds force =>
      silently (AnalysisJobService.bulkCreateJobsForProject hasQueue projectId documentIds force)

/-- An operation on the one `SuggestionService`, or on the one `AnalysisJobService`. -/
abbrev Operation := SuggestionOperation ⊕ JobOperation

/-- The outboxes of the two services. -/
structure Outboxes where
  suggestions : Outbox := []
  jobs : Outbox := []

/-- The operations one after another; whether one of them raised makes no difference to the next. -/
def serve (hasQueue : Bool) : List Operation → Outboxes → Effects.Prog Answer Empty Outboxes
  | [], o => .pure o
  | .inl op :: rest, o =>
      (op.program o.suggestions).bind fun r => serve hasQueue rest { o with suggestions := r.2 }
  | .inr op :: rest, o =>
      (op.program hasQueue o.jobs).bind fun r => serve hasQueue rest { o with jobs := r.2 }

end SyncBack.Publishing
