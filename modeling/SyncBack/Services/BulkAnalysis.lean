import SyncBack.Services.AnalysisJobService

/-!
# Starting the analysis of many documents

One request, one session, many transactions: a job is created and handed to the queue for each
document in turn; a document that cannot be started is skipped with a reason, and the exception
has rolled its transaction back. At the end the jobs are read again, because a rollback makes every
object of the session stale.

Source: `bulk_create_jobs_for_project` in `app/domain/services/analysis_job_service.py`.
-/

namespace SyncBack

open Txn Session

/-- Source: `DocumentLifecycle.ANALYZABLE`. -/
def DocumentLifecycle.analyzable : List DocumentStatus := [.draft, .awaitingApproval, .ready]

/-- Rows come in order of insertion. Source: `DocumentRepository.list_ids_by_statuses`. -/
def DocumentRepository.listIdsByStatuses (projectId : Uuid) (statuses : List DocumentStatus) :
    Session (List Uuid) :=
  if statuses = [] then pure []
  else do
    let rows ← select fun
      | .document _, row => row.projectId = projectId && row.status ∈ statuses
      | _, _ => false
    pure (rows.filterMap fun
      | ⟨.document id, _⟩ => some id
      | _ => none)

/-- Source: `AnalysisJobRepository.list_by_ids`. -/
def AnalysisJobRepository.listByIds (jobIds : List Uuid) : Session (List (Loaded AnalysisJob)) :=
  if jobIds = [] then pure []
  else do
    let rows ← select fun
      | .job id, _ => id ∈ jobIds
      | _, _ => false
    pure (jobs rows)

/-- Source: `BulkSkipReason`. -/
inductive BulkSkipReason where
  | notFound
  | confirmationRequired
  | analysisRunning
  | invalidStatus
  deriving DecidableEq

/-- Source: `BulkJobOutcome`. -/
structure BulkJobOutcome where
  documentId : Uuid
  job : Option (Loaded AnalysisJob) := none
  jobId : Option Uuid := none
  skipReason : Option BulkSkipReason := none
  message : Option String := none
  deriving DecidableEq

namespace AnalysisJobService

/-- Source: `_skipped`. -/
def skipped (documentId : Uuid) (reason : BulkSkipReason) (message : String) : BulkJobOutcome :=
  { documentId, skipReason := some reason, message := some message }

/-- The `except` clauses of the loop: four exceptions become the outcome of the document. -/
def skipOf (documentId : Uuid) : DomainError → Option BulkJobOutcome
  | .documentNotFound message => some (skipped documentId .notFound message)
  | .analysisConfirmationRequired =>
      some (skipped documentId .confirmationRequired
        ("Документ уже проходил анализ: повторный анализ заменит результаты ревью. " ++
          "Передайте force=true."))
  | .analysisAlreadyRunning =>
      some (skipped documentId .analysisRunning "Для документа уже выполняется анализ")
  | .invalidDocumentStatus reason => some (skipped documentId .invalidStatus reason.message)
  | _ => none

/-- One round of the loop: `create_job`, and `dispatch_job` unless the document is skipped. -/
def startOrSkip (projectId : Uuid) (force held : Bool) (run : EnqueueRun) (documentId : Uuid) :
    Session BulkJobOutcome := do
  let created ← Prog.tryCatch
    (do
      let created ← createJob projectId documentId none force
      pure (Sum.inr created))
    fun e =>
      match skipOf documentId e with
      | some outcome => pure (Sum.inl outcome)
      | none => throw e
  match created with
  | .inl outcome => pure outcome
  | .inr (job, document) => do
      let job ← dispatchJob job (if held = true then some document else none) run
      pure { documentId, job := some job, jobId := some job.id }

/-- The loop over the documents. -/
def startOrSkipEach (projectId : Uuid) (force : Bool) (held : Uuid → Bool)
    (run : Uuid → EnqueueRun) : List Uuid → Session (List BulkJobOutcome)
  | [] => pure []
  | documentId :: rest => do
      let outcome ← startOrSkip projectId force (held documentId) (run documentId) documentId
      let outcomes ← startOrSkipEach projectId force held run rest
      pure (outcome :: outcomes)

/-- The outcomes with the jobs of the last query. The session gives back the objects that it
holds already; their columns are read again if a later skip has rolled back since. -/
def withReloaded (jobs : List (Loaded AnalysisJob)) : List BulkJobOutcome → List BulkJobOutcome
  | [] => []
  | outcome :: later =>
      let found := outcome.jobId.bind fun id => jobs.find? (·.id = id)
      let expired := later.any (·.skipReason.isSome)
      (if found.isSome && expired then { outcome with job := found } else outcome) ::
        withReloaded jobs later

/-- Source: `AnalysisJobService._reload_jobs`. -/
def reloadJobs (outcomes : List BulkJobOutcome) : Session (List BulkJobOutcome) :=
  let jobIds := outcomes.filterMap (·.jobId)
  if jobIds = [] then pure outcomes
  else do
    let jobs ← withUow (AnalysisJobRepository.listByIds jobIds)
    pure (withReloaded jobs outcomes)

/-- The documents to start: those that were asked for, each once, or all that can be analysed. -/
def targetIds (projectId : Uuid) (documentIds : Option (List Uuid)) : Session (List Uuid) :=
  match documentIds with
  | none =>
      withUow (DocumentRepository.listIdsByStatuses projectId DocumentLifecycle.analyzable)
  | some documentIds => pure documentIds.eraseDups

/-- `held` says of each document whether the one that `create_job` loaded is still referred to
when `dispatch_job` asks for it, `run` what its call of the queue does.
Source: `AnalysisJobService.bulk_create_jobs_for_project`. -/
def bulkCreateJobsForProject (projectId : Uuid) (documentIds : Option (List Uuid)) (force : Bool)
    (held : Uuid → Bool) (run : Uuid → EnqueueRun) : Session (List BulkJobOutcome) := do
  let targets ← targetIds projectId documentIds
  let outcomes ← startOrSkipEach projectId force held run targets
  reloadJobs outcomes

end AnalysisJobService

end SyncBack
