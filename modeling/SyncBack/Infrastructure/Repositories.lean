import SyncBack.Infrastructure.Database

/-!
# The repositories

Each method of the SQLAlchemy repositories that the modelled services call, as the statements it
sends. A conditional `UPDATE … WHERE …` of many rows first finds the rows that match in its
snapshot and then locks and rechecks them one by one, as READ COMMITTED does; other sessions may
step in between.

Source: `app/infrastructure/db/repositories/*.py`.
-/

namespace SyncBack

open Txn Session

/-! ## Foreign keys -/

namespace ForeignKeys

/-- The jobs among the keys. -/
def jobIds (keys : List Key) : List Uuid :=
  keys.filterMap fun
    | .job id => some id
    | _ => none

/-- The sources among the keys. -/
def sourceIds (keys : List Key) : List Uuid :=
  keys.filterMap fun
    | .source id => some id
    | _ => none

/-- Clear the current job of the documents of a snapshot one by one. -/
def clearCurrentJobs (deleted : List Uuid) : List (Sigma Row) → Session Unit
  | [] => pure ()
  | ⟨.document id, _⟩ :: rest => do
      let o ← update (.document id)
        (fun (row : Document) => row.currentAnalysisJobId.any (· ∈ deleted))
        fun (row : Document) => { row with currentAnalysisJobId := none }
      let _ ← matched o
      clearCurrentJobs deleted rest
  | _ :: rest => clearCurrentJobs deleted rest

/-- What goes with jobs: `analysis_job_sources.job_id` and `suggestions.analysis_job_id` are
`CASCADE`, `documents.current_analysis_job_id` is `SET NULL`. -/
def onDeleteJobs (deleted : List Uuid) : Session Unit := do
  let _ ← deleteWhere fun
    | .jobSource jobId _, _ => jobId ∈ deleted
    | .suggestion _, row => row.analysisJobId ∈ deleted
    | _, _ => false
  let documents ← select fun
    | .document _, row => row.currentAnalysisJobId.any (· ∈ deleted)
    | _, _ => false
  clearCurrentJobs deleted documents

/-- What goes with a document: `analysis_jobs`, `suggestions` and `document_sources` are
`CASCADE`. -/
def onDeleteDocument (documentId : Uuid) : Session Unit := do
  let jobs ← deleteWhere fun
    | .job _, row => row.documentId = documentId
    | _, _ => false
  onDeleteJobs (jobIds jobs)
  let _ ← deleteWhere fun
    | .suggestion _, row => row.documentId = documentId
    | .documentSource doc _, _ => doc = documentId
    | _, _ => false
  pure ()

/-- What goes with sources: `document_sources` is `CASCADE`. -/
def onDeleteSources (deleted : List Uuid) : Session Unit := do
  let _ ← deleteWhere fun
    | .documentSource _ src, _ => src ∈ deleted
    | _, _ => false
  pure ()

end ForeignKeys

/-! ## Documents -/

namespace Document

/-- The row with another status. -/
def withStatus (status : DocumentStatus) (basis : Basis) (row : Document) : Document :=
  { row with status, basis }

/-- The row with another current job. -/
def withCurrentJob (jobId : Option Uuid) (row : Document) : Document :=
  { row with currentAnalysisJobId := jobId }

/-- The row with the key of an exported file. -/
def withExportedKey (exportKey : String) (row : Document) : Document :=
  { row with exportedStorageKey := some exportKey }

/-- The row with the next version of its review. -/
def withNextVersion (row : Document) : Document :=
  { row with reviewVersion := row.reviewVersion + 1 }

end Document

namespace DocumentRepository

/-- Source: `DocumentRepository.create`; the other columns take their defaults. -/
def create (id projectId : Uuid) (name : String) (format : DocumentFormat) (storageKey : String)
    (sizeBytes : ℕ) : Session (Loaded Document) := do
  let row : Document := { projectId, name, format, storageKey, sizeBytes, status := .draft }
  let inserted ← insert (.document id) row
  if inserted = true then pure ⟨id, row⟩ else throw .integrityError

/-- Source: `DocumentRepository.get_by_id`, for a row that the session has not loaded yet. -/
def getById (documentId : Uuid) : Session (Option (Loaded Document)) := do
  let row ← fetch (.document documentId)
  pure (row.map (Loaded.mk documentId))

/-- Source: `DocumentRepository.get_many_by_ids`. -/
def getManyByIds (documentIds : List Uuid) : Session (List (Loaded Document)) :=
  if documentIds = [] then pure []
  else do
    let rows ← select fun
      | .document id, _ => id ∈ documentIds
      | _, _ => false
    pure (rows.filterMap fun
      | ⟨.document id, row⟩ => some ⟨id, row⟩
      | _ => none)

/-- Set the status and flush; an unchanged status sends nothing. `basis` is for the history
variable only. Source: `DocumentRepository.update_status`. -/
def updateStatus (document : Loaded Document) (status : DocumentStatus) (basis : Basis) :
    Session (Loaded Document) :=
  if status = document.row.status then pure document
  else do
    let o ← update (.document document.id) (fun _ => true) (Document.withStatus status basis)
    let _ ← flushed o
    pure ⟨document.id, document.row.withStatus status basis⟩

/-- The row condition of `compare_and_set_status`. -/
def comparesTo (analysisJobId : Option Uuid) (expected : DocumentStatus) (row : Document) : Bool :=
  row.status = expected && row.currentAnalysisJobId = analysisJobId

/-- Source: `DocumentRepository.compare_and_set_status`. -/
def compareAndSetStatus (documentId : Uuid) (analysisJobId : Option Uuid)
    (expected target : DocumentStatus) : Session Bool := do
  let o ← update (.document documentId) (comparesTo analysisJobId expected)
    (Document.withStatus target { currentJob := analysisJobId, documentStatus := some expected })
  let found ← matched o
  pure found.isSome

/-- Source: `DocumentRepository.set_current_job`. -/
def setCurrentJob (document : Loaded Document) (jobId : Option Uuid) : Session (Loaded Document) :=
  if jobId = document.row.currentAnalysisJobId then pure document
  else do
    let o ← update (.document document.id) (fun _ => true) (Document.withCurrentJob jobId)
    let _ ← flushed o
    pure ⟨document.id, document.row.withCurrentJob jobId⟩

/-- Source: `DocumentRepository.update_exported_key`. -/
def updateExportedKey (document : Loaded Document) (exportKey : String) :
    Session (Loaded Document) :=
  if some exportKey = document.row.exportedStorageKey then pure document
  else do
    let o ← update (.document document.id) (fun _ => true) (Document.withExportedKey exportKey)
    let _ ← flushed o
    pure ⟨document.id, document.row.withExportedKey exportKey⟩

/-- The row of the database is compared and incremented; the object in the session follows only
in the column that the statement sets, and only if it matches the condition itself.
Source: `DocumentRepository.compare_and_increment_review_version`. -/
def compareAndIncrementReviewVersion (document : Loaded Document) (expectedVersion : ℤ) :
    Session (Option (Loaded Document)) := do
  let o ← update (.document document.id)
    (fun (row : Document) => row.reviewVersion = expectedVersion) Document.withNextVersion
  let found ← matched o
  pure (found.map fun _ =>
    if document.row.reviewVersion = expectedVersion then
      ⟨document.id, document.row.withNextVersion⟩
    else document)

/-- The sources of the links to a document. -/
def attachedSources (documentId : Uuid) : Session (List Uuid) := do
  let links ← select fun
    | .documentSource doc _, _ => doc = documentId
    | _, _ => false
  pure (links.filterMap fun
    | ⟨.documentSource _ src, _⟩ => some src
    | _ => none)

/-- The subquery reads the links first. Source: `DocumentRepository.delete_document_scoped_sources`. -/
def deleteDocumentScopedSources (documentId : Uuid) : Session ℕ := do
  let attached ← attachedSources documentId
  let deleted ← deleteWhere fun
    | .source id, row => row.scope = .document && id ∈ attached
    | _, _ => false
  ForeignKeys.onDeleteSources (ForeignKeys.sourceIds deleted)
  pure deleted.length

/-- The deleted row has the keys of the document's files. Source: `DocumentRepository.delete_by_id`. -/
def deleteById (documentId projectId : Uuid) : Session (Option Document) := do
  let row ← delete (.document documentId) fun (row : Document) => row.projectId = projectId
  match row with
  | none => pure none
  | some row => do
      ForeignKeys.onDeleteDocument documentId
      pure (some row)

end DocumentRepository

/-! ## Analysis jobs -/

/-- The row of an active job that a worker has begun. -/
def AnalysisJob.begun (now : ℕ) (row : AnalysisJob) : AnalysisJob :=
  { row with
    status := .processing, startedAt := some (row.startedAt.getD now)
    basis := { jobStatus := some row.status } }

namespace AnalysisJobRepository

/-- Source: `AnalysisJobRepository.get_by_id`, for a row that the session has not loaded yet. -/
def getById (jobId : Uuid) : Session (Option (Loaded AnalysisJob)) := do
  let row ← fetch (.job jobId)
  pure (row.map (Loaded.mk jobId))

/-- The jobs among the rows of an answer. -/
def jobs (rows : List (Sigma Row)) : List (Loaded AnalysisJob) :=
  rows.filterMap fun
    | ⟨.job id, row⟩ => some ⟨id, row⟩
    | _ => none

/-- The jobs among some rows. -/
theorem mem_jobs {rows : List (Sigma Row)} {job : Loaded AnalysisJob} :
    job ∈ jobs rows ↔ (⟨.job job.id, job.row⟩ : Sigma Row) ∈ rows := by
  unfold jobs
  rw [List.mem_filterMap]
  constructor
  · rintro ⟨⟨k, v⟩, hmem, hk⟩
    cases k with
    | job id =>
        cases hk
        exact hmem
    | document _ | suggestion _ | jobSource _ _ | source _ | documentSource _ _ => cases hk
  · intro hmem
    exact ⟨_, hmem, rfl⟩

/-- Source: `AnalysisJobRepository.get_by_idempotency_key`. -/
def getByIdempotencyKey (documentId : Uuid) (idempotencyKey : String) :
    Session (Option (Loaded AnalysisJob)) := do
  let rows ← select fun
    | .job _, row => row.documentId = documentId && row.idempotencyKey = some idempotencyKey
    | _, _ => false
  pure (jobs rows).head?

/-- The newest active job: rows come in order of insertion.
Source: `AnalysisJobRepository.get_active_by_document_id`. -/
def getActiveByDocumentId (documentId : Uuid) : Session (Option (Loaded AnalysisJob)) := do
  let rows ← select fun
    | .job _, row => row.documentId = documentId && AnalysisJobLifecycle.isActive row.status
    | _, _ => false
  pure (jobs rows).getLast?

/-- Source: `AnalysisJobRepository.create_for_document`. -/
def createForDocument (document : Loaded Document) (status : AnalysisJobStatus)
    (idempotencyKey : Option String) : Session (Loaded AnalysisJob) := do
  let id ← uuid4
  let row : AnalysisJob := { documentId := document.id, status, idempotencyKey }
  let inserted ← insert (.job id) row
  if inserted = true then pure ⟨id, row⟩ else throw .analysisJobConflict

/-- Source: `AnalysisJobRepository.set_celery_task_id`. -/
def setCeleryTaskId (job : Loaded AnalysisJob) (taskId : String) : Session (Loaded AnalysisJob) :=
  flushJob job { job.row with celeryTaskId := some taskId }

/-- Source: `AnalysisJobRepository.mark_processing_if_active`. -/
def markProcessingIfActive (jobId : Uuid) : Session Bool := do
  let n ← now
  let o ← update (.job jobId)
    (fun (row : AnalysisJob) => AnalysisJobLifecycle.isActive row.status) (AnalysisJob.begun n)
  let found ← matched o
  pure found.isSome

/-- The attributes of a job after `update_status` has set them. -/
def withStatus (job : AnalysisJob) (status : AnalysisJobStatus)
    (errorCode errorMessage : Option String) (now : ℕ) : AnalysisJob :=
  { job with
    status, errorCode, errorMessage
    startedAt := if status = .processing ∧ job.startedAt = none then some now else job.startedAt
    finishedAt := if AnalysisJobLifecycle.isTerminal status then some now else job.finishedAt }

/-- Source: `AnalysisJobRepository.update_status`. -/
def updateStatus (job : Loaded AnalysisJob) (status : AnalysisJobStatus)
    (errorCode errorMessage : Option String) : Session (Loaded AnalysisJob) := do
  let n ← now
  flushJob job (withStatus job.row status errorCode errorMessage n)

end AnalysisJobRepository

/-! ## Suggestions -/

/-- A decision on one suggestion. Source: `SuggestionDecision`. -/
structure SuggestionDecision where
  suggestionId : Uuid
  status : SuggestionStatus
  userId : Uuid
  editedText : Option Text := none

/-- Source: `ReviewDecisions`. -/
structure ReviewDecisions where
  decisions : List SuggestionDecision
  documentId : Option Uuid
  userId : Uuid
  /-- The job whose suggestions the decisions are for; `none` does not narrow them down. -/
  analysisJobId : Option Uuid

namespace SuggestionRepository

/-- Source: `SuggestionRepository.get_by_id`, for a row that the session has not loaded yet. -/
def getById (suggestionId : Uuid) : Session (Option (Loaded Suggestion)) := do
  let row ← fetch (.suggestion suggestionId)
  pure (row.map (Loaded.mk suggestionId))

/-- The ids of the suggestions among the rows of an answer. -/
def ids (rows : List (Sigma Row)) : List Uuid :=
  rows.filterMap fun
    | ⟨.suggestion id, _⟩ => some id
    | _ => none

/-- The ids of the suggestions that a statement finds in its snapshot. -/
def selectIds (p : Uuid → Suggestion → Bool) : Session (List Uuid) := do
  let rows ← select fun
    | .suggestion id, row => p id row
    | _, _ => false
  pure (ids rows)

/-- Source: `SuggestionRepository.count_by_analysis_job_and_status`. -/
def countByAnalysisJobAndStatus (jobId : Uuid) (status : SuggestionStatus) : Session ℕ := do
  let found ← selectIds fun _ row => row.analysisJobId = jobId && row.status = status
  pure found.length

/-- Insert the suggestions, drawing an id for each.
Source: `SuggestionRepository.bulk_create`. -/
def bulkCreate (suggestions : List Suggestion) : Session Unit :=
  Prog.each suggestions fun suggestion => do
    let id ← uuid4
    let inserted ← insert (.suggestion id) suggestion
    if inserted = true then pure () else throw .integrityError

/-- The row values that `update_status` sets: the edited text stays as it is. -/
def withDecision (decision : SuggestionDecision) (now : ℕ) (row : Suggestion) : Suggestion :=
  { row with
    status := decision.status, decidedBy := some decision.userId, decidedAt := some now }

/-- Source: `SuggestionRepository.update_status`. -/
def updateStatus (suggestion : Loaded Suggestion) (decision : SuggestionDecision) :
    Session Unit := do
  let n ← now
  let o ← update (.suggestion suggestion.id) (fun (row : Suggestion) => row.status = .pending)
    (withDecision decision n)
  let found ← matched o
  if found.isSome = true then pure ()
  else throw (.suggestionAlreadyDecided "Правка уже была принята или отклонена")

/-- Lock, recheck and rewrite the rows of a snapshot one by one; the ids that were rewritten. -/
def updateRows (p : Uuid → Suggestion → Bool) (f : Uuid → Suggestion → Suggestion) :
    List Uuid → Session (List Uuid)
  | [] => pure []
  | id :: rest => do
      let o ← update (.suggestion id) (p id) (f id)
      let found ← matched o
      let updated ← updateRows p f rest
      pure (if found.isSome then id :: updated else updated)

/-- `UPDATE suggestions SET … WHERE … RETURNING id`. -/
def updateWhere (p : Uuid → Suggestion → Bool) (f : Uuid → Suggestion → Suggestion) :
    Session (List Uuid) := do
  let snapshot ← selectIds p
  updateRows p f snapshot

/-- The row conditions of `bulk_update_status`. -/
def decidable (decisions : ReviewDecisions) (id : Uuid) (row : Suggestion) : Bool :=
  decisions.documentId = some row.documentId && row.status = .pending &&
    id ∈ decisions.decisions.map (·.suggestionId) &&
    decisions.analysisJobId.all (row.analysisJobId = ·)

/-- The row values that `bulk_update_status` sets. -/
def decided (decisions : ReviewDecisions) (now : ℕ) (id : Uuid) (row : Suggestion) : Suggestion :=
  let accepted := (decisions.decisions.filter (·.status = .accepted)).map (·.suggestionId)
  let edits := decisions.decisions.filter (·.editedText.isSome)
  { row with
    status := if id ∈ accepted then .accepted else .rejected
    editedText := (edits.find? (·.suggestionId = id)).bind (·.editedText)
    decidedBy := some decisions.userId
    decidedAt := some now }

/-- Source: `SuggestionRepository.bulk_update_status`. -/
def bulkUpdateStatus (decisions : ReviewDecisions) : Session ℕ :=
  if decisions.decisions = [] then pure 0
  else do
    let n ← now
    let updated ← updateWhere (decidable decisions) (decided decisions n)
    pure updated.length

/-- `bulk_accept_all` and `bulk_reject_all` differ in the status alone. -/
def bulkDecideAll (status : SuggestionStatus) (jobId userId : Uuid) : Session (List Uuid) := do
  let n ← now
  updateWhere (fun _ row => row.analysisJobId = jobId && row.status = .pending)
    fun _ row => { row with status, decidedBy := some userId, decidedAt := some n }

/-- Source: `SuggestionRepository.bulk_accept_all`. -/
def bulkAcceptAll : Uuid → Uuid → Session (List Uuid) := bulkDecideAll .accepted

/-- Source: `SuggestionRepository.bulk_reject_all`. -/
def bulkRejectAll : Uuid → Uuid → Session (List Uuid) := bulkDecideAll .rejected

/-- The row values that both reset statements set. -/
def reset (basis : Basis) (row : Suggestion) : Suggestion :=
  { row with status := .pending, decidedBy := none, decidedAt := none, editedText := none, basis }

/-- Source: `SuggestionRepository.reset_status`. -/
def resetStatus (suggestion : Loaded Suggestion) (basis : Basis) :
    Session (Option (Loaded Suggestion)) := do
  let o ← update (.suggestion suggestion.id)
    (fun (row : Suggestion) => row.status ≠ .pending) (reset basis)
  let found ← matched o
  pure (found.map (Loaded.mk suggestion.id))

/-- Source: `SuggestionRepository.reset_to_pending`. -/
def resetToPending (jobId : Uuid) (ids : Option (List Uuid)) (basis : Basis) :
    Session (List Uuid) :=
  match ids with
  | some [] => pure []
  | some ids =>
      updateWhere
        (fun id row => row.analysisJobId = jobId && row.status ≠ .pending && id ∈ ids)
        fun _ row => reset basis row
  | none =>
      updateWhere (fun _ row => row.analysisJobId = jobId && row.status ≠ .pending)
        fun _ row => reset basis row

end SuggestionRepository

/-! ## Runs of a source within a job -/

namespace AnalysisJobSource

/-- The row of a run that was claimed at `now` with `token`. -/
def claimed (now : ℕ) (token : Uuid) (row : AnalysisJobSource) : AnalysisJobSource :=
  { row with status := .processing, lockedAt := some now, lockToken := some token }

/-- The row of a run that was given back. -/
def released (row : AnalysisJobSource) : AnalysisJobSource :=
  { row with status := .pending, lockedAt := none, lockToken := none }

/-- The row of a run that was completed at `now` with `count` suggestions. -/
def completed (now count : ℕ) (row : AnalysisJobSource) : AnalysisJobSource :=
  { row with
    status := .completed, suggestionsCount := count, finishedAt := some now
    lockedAt := none, lockToken := none }

end AnalysisJobSource

namespace AnalysisJobSourceRepository

/-- Source: `AnalysisJobSourceRepository._get`. -/
def get (jobId sourceId : Uuid) : Session (Option AnalysisJobSource) :=
  fetch (.jobSource jobId sourceId)

/-- Source: `AnalysisJobSourceRepository.ensure`. -/
def ensure (jobId sourceId : Uuid) : Session AnalysisJobSource := do
  let existing ← get jobId sourceId
  match existing with
  | some row => pure row
  | none => do
      -- the loser of the race keeps its transaction: the insert runs in a savepoint
      let _ ← insert (.jobSource jobId sourceId) ({} : AnalysisJobSource)
      let row ← get jobId sourceId
      match row with
      | some row => pure row
      | none => throw (.runtimeError "analysis_job_sources: запись не создана")

/-- The rows that `claim` may take: pending ones, and those whose lease has run out. -/
def claimable (expiredBefore : ℤ) (row : AnalysisJobSource) : Bool :=
  row.status = .pending ||
    (row.status = .processing && row.lockedAt.any fun at_ => (at_ : ℤ) < expiredBefore)

/-- Source: `AnalysisJobSourceRepository.claim`. -/
def claim (jobId sourceId : Uuid) (leaseSeconds : ℕ) : Session (Option Uuid) := do
  let token ← uuid4
  let n ← now
  let o ← update (.jobSource jobId sourceId) (claimable ((n : ℤ) - leaseSeconds))
    (AnalysisJobSource.claimed n token)
  let found ← matched o
  pure (found.map fun _ => token)

/-- The rows that the owner of `token` may release or complete. -/
def ownedBy (token : Uuid) (row : AnalysisJobSource) : Bool :=
  row.status = .processing && row.lockToken = some token

/-- Source: `AnalysisJobSourceRepository.release`. -/
def release (jobId sourceId token : Uuid) : Session Unit := do
  let o ← update (.jobSource jobId sourceId) (ownedBy token)
    AnalysisJobSource.released
  let _ ← matched o
  pure ()

/-- Source: `AnalysisJobSourceRepository.mark_completed`. -/
def markCompleted (jobId sourceId token : Uuid) (suggestionsCount : ℕ) : Session Bool := do
  let n ← now
  let o ← update (.jobSource jobId sourceId) (ownedBy token)
    (AnalysisJobSource.completed n suggestionsCount)
  let found ← matched o
  pure found.isSome

/-- Source: `AnalysisJobSourceRepository.get_completed_count`. -/
def getCompletedCount (jobId sourceId : Uuid) : Session (Option ℕ) := do
  let row ← get jobId sourceId
  pure (row.bind fun row => if row.status = .completed then some row.suggestionsCount else none)

end AnalysisJobSourceRepository

/-! ## Sources -/

namespace SourceRepository

/-- Source: `SourceRepository.get_by_id`. -/
def getById (sourceId : Uuid) : Session (Option (Loaded Source)) := do
  let row ← fetch (.source sourceId)
  pure (row.map (Loaded.mk sourceId))

/-- The sources of the project and those attached to the document, in order of insertion.
Source: `SourceRepository.list_for_analysis`. -/
def listForAnalysis (projectId documentId : Uuid) : Session (List Uuid) := do
  let attached ← DocumentRepository.attachedSources documentId
  let rows ← select fun
    | .source id, row => row.projectId = projectId && (row.scope = .project || id ∈ attached)
    | _, _ => false
  pure (rows.filterMap fun
    | ⟨.source id, _⟩ => some id
    | _ => none)

/-- Source: `SourceRepository.list_attached_document_ids`. -/
def listAttachedDocumentIds (sourceId : Uuid) : Session (List Uuid) := do
  let links ← select fun
    | .documentSource _ src, _ => src = sourceId
    | _, _ => false
  pure (links.filterMap fun
    | ⟨.documentSource doc _, _⟩ => some doc
    | _ => none)

/-- An existing link is left alone; a new one needs both rows.
Source: `SourceRepository.attach_to_document`. -/
def attachToDocument (sourceId documentId : Uuid) : Session Unit := do
  let inserted ← insert (.documentSource documentId sourceId) ()
  if inserted = true then do
    let document ← fetch (.document documentId)
    let source ← fetch (.source sourceId)
    if document.isSome && source.isSome then pure () else throw .integrityError
  else pure ()

/-- Source: `SourceRepository.create_with_id`. -/
def createWithId (sourceId projectId : Uuid) (name : String) (type : SourceType)
    (storageKey : String) (scope : SourceScope) : Session (Loaded Source) := do
  let row : Source := { projectId, name, type, storageKey := some storageKey, scope }
  let inserted ← insert (.source sourceId) row
  if inserted = true then pure ⟨sourceId, row⟩ else throw .integrityError

/-- Source: `SourceRepository.create_url`. -/
def createUrl (projectId : Uuid) (name url : String) (scope : SourceScope) :
    Session (Loaded Source) := do
  let id ← uuid4
  let row : Source := { projectId, name, type := .url, url := some url, scope }
  let inserted ← insert (.source id) row
  if inserted = true then pure ⟨id, row⟩ else throw .integrityError

/-- The session deletes the links of the object itself, then the row.
Source: `SourceRepository.delete`. -/
def delete (source : Loaded Source) : Session Unit := do
  ForeignKeys.onDeleteSources [source.id]
  let _ ← Session.delete (.source source.id) fun _ => true
  ForeignKeys.onDeleteSources [source.id]

end SourceRepository

end SyncBack
