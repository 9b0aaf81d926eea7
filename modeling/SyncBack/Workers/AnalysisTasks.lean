import SyncBack.Services.AnalysisJobService
import SyncBack.Workers.SuggestionMapper

/-!
# The worker

One task for each source of a job, and the final task. A source task uses two sessions, with the
call of the model between them and outside any transaction:

* `claimSource` — the job goes to `processing`, the run of the source is claimed with a token;
* `storeResult` — the token still has to own the run; the completion and the suggestions go into
  one transaction.

Reading the document, fetching the source and the call of the model are a parameter, as is the
text that they worked on. An exception that nothing catches ends the process, as a crash does.

Source: `app/workers/tasks/analysis_tasks.py`.
-/

namespace SyncBack

open Txn Session

/-- Why the generation failed. Source: `_GENERATION_ERROR_CODES`. -/
inductive GenerationError where
  | inputTooLarge
  | timeout
  | invalidResponse
  | documentParse
  | other
  deriving DecidableEq

/-- Source: `_generation_error_code`. -/
def GenerationError.code : GenerationError → String
  | .inputTooLarge => "LLM_INPUT_TOO_LARGE"
  | .timeout => "LLM_UNAVAILABLE"
  | .invalidResponse => "LLM_INVALID_RESPONSE"
  | .documentParse => "DOCUMENT_PARSE_ERROR"
  | .other => "GENERATION_ERROR"

/-- The outcome of the generation: an error with its text, or the text of the document and the
answer of the model. -/
inductive GenerationRun where
  | failed (error : GenerationError) (message : String)
  | answered (plainText : Text) (batch : List LLMSuggestionItem)

/-- The status of a result of `_process_source` with its data. -/
inductive SourceOutcome where
  | ok (count : ℕ)
  | failed (errorCode errorMessage : String)
  | retryable (errorCode errorMessage : String)
  | cancelled
  | busy
  deriving DecidableEq

/-- A result of `_process_source`, as `_finalize` gets it. -/
structure SourceResult where
  sourceId : Uuid
  outcome : SourceOutcome

/-- What the first session hands over: the token of the claim and what is needed of the
document. -/
structure SourceClaim where
  token : Uuid
  documentId : Uuid
  documentFormat : DocumentFormat

namespace AnalysisTasks

/-- Source: `_SOURCE_LEASE_SECONDS`. -/
def sourceLeaseSeconds : ℕ := 600

/-! ## One source -/

/-- Source: `_release_source`; a failure is logged and the lease runs out instead. -/
def releaseSource (jobId sourceId token : Uuid) : Session Unit :=
  Prog.tryCatch
    (closing do
      AnalysisJobSourceRepository.release jobId sourceId token
      commit)
    fun _ => pure ()

/-- The first session of `_process_source`, from the row of the run on. -/
def claimRun (jobId sourceId : Uuid) (document : Loaded Document) :
    Session (SourceOutcome ⊕ SourceClaim) := do
  let _ ← AnalysisJobSourceRepository.ensure jobId sourceId
  let alreadyDone ← AnalysisJobSourceRepository.getCompletedCount jobId sourceId
  match alreadyDone with
  | some count => do
      commit
      pure (.inl (.ok count))
  | none => do
      let token ← AnalysisJobSourceRepository.claim jobId sourceId sourceLeaseSeconds
      commit
      match token with
      | some token => pure (.inr ⟨token, document.id, document.row.format⟩)
      | none => pure (.inl .busy)

/-- The first session of `_process_source`. -/
def claimSource (jobId sourceId : Uuid) : Session (SourceOutcome ⊕ SourceClaim) :=
  closing do
    let found ← AnalysisJobRepository.getById jobId
    match found with
    | none => pure (.inl (.failed "JOB_NOT_FOUND" "Задача анализа не найдена"))
    | some job => do
        let active ← AnalysisJobRepository.markProcessingIfActive jobId
        if active = true then do
          commit
          let source ← SourceRepository.getById sourceId
          match source with
          | none => pure (.inl (.failed "SOURCE_NOT_FOUND" "Источник не найден"))
          | some _ => do
              let document ← DocumentRepository.getById job.row.documentId
              match document with
              | none => pure (.inl (.failed "DOCUMENT_NOT_FOUND" "Документ не найден"))
              | some document => claimRun jobId sourceId document
        else pure (.inl .cancelled)

/-- The second session of `_process_source`, once the run is marked as completed. -/
def storeSuggestions (sourceId : Uuid) (suggestions : List Suggestion) :
    Session SourceOutcome := do
  let provenanceSource ← SourceRepository.getById sourceId
  match provenanceSource with
  | none => do
      rollback
      pure (.failed "SOURCE_NOT_FOUND" "Источник не найден")
  | some source => do
      SuggestionRepository.bulkCreate
        (suggestions.map fun suggestion => { suggestion with sources := [source.id] })
      commit
      pure (.ok suggestions.length)

/-- The second session of `_process_source`. -/
def storeResult (jobId sourceId token : Uuid) (suggestions : List Suggestion) :
    Session SourceOutcome :=
  closing do
    let found ← AnalysisJobRepository.getById jobId
    if (found.any fun job => AnalysisJobLifecycle.isActive job.row.status) = true then do
      let won ← AnalysisJobSourceRepository.markCompleted jobId sourceId token suggestions.length
      if won = true then storeSuggestions sourceId suggestions
      else do
        rollback
        let stored ← AnalysisJobSourceRepository.getCompletedCount jobId sourceId
        match stored with
        | some count => pure (.ok count)
        | none => pure .busy
    else do
      AnalysisJobSourceRepository.release jobId sourceId token
      commit
      pure .cancelled

/-- Source: `_process_source`. -/
def processSource (jobId sourceId : Uuid) (generation : GenerationRun) :
    Session SourceOutcome := do
  let start ← claimSource jobId sourceId
  match start with
  | .inl outcome => pure outcome
  | .inr claim =>
      match generation with
      | .failed error message => do
          releaseSource jobId sourceId claim.token
          if error = .timeout then pure (.retryable error.code message)
          else pure (.failed error.code message)
      | .answered plainText batch =>
          storeResult jobId sourceId claim.token
            (SuggestionMapper.mapToSuggestions batch jobId claim.documentId plainText
              claim.documentFormat)

/-! ## The final task -/

/-- The failed results, with what the summary quotes of them. -/
def failures (results : List SourceResult) : List (Uuid × String × String) :=
  results.filterMap fun result =>
    match result.outcome with
    | .failed errorCode errorMessage => some (result.sourceId, errorCode, errorMessage)
    | _ => none

/-- Source: `_join_errors`. -/
def joinErrors (failed : List (Uuid × String × String)) : String :=
  let quoted := failed.map fun (sourceId, errorCode, errorMessage) =>
    let text := if errorMessage = "" then errorCode else errorMessage
    s!"{sourceId}: {text}"
  String.ofList ((String.intercalate "; " quoted).toList.take 2000)

/-- The status of a job with the given results, with its error code and message. Source: the
middle part of `_finalize`. -/
def summary (results : List SourceResult) : AnalysisJobStatus × Option String × Option String :=
  let failed := failures results
  if results.any (·.outcome = .cancelled) then
    (.cancelled, some "ANALYSIS_CANCELLED", some "Анализ отменён")
  else
    match failed with
    | [] => (.success, none, none)
    | (_, errorCode, _) :: _ =>
        if results.any (fun result => result.outcome matches .ok _) then
          (.partialSuccess, some "PARTIAL_FAILURE", some (joinErrors failed))
        else
          (.failed, some (if errorCode = "" then "GENERATION_ERROR" else errorCode),
            some (joinErrors failed))

/-- The writing part of `_finalize`. -/
def finishJob (results : List SourceResult) (job : Loaded AnalysisJob)
    (document : Loaded Document) : Session Unit := do
  let (jobStatus, errorCode, errorMessage) := summary results
  let pending ← SuggestionRepository.countByAnalysisJobAndStatus job.id .pending
  let status ← jobTransition job.row.status jobStatus
  let job ← AnalysisJobRepository.updateStatus job status errorCode errorMessage
  let job ← flushJob job { job.row with partialSuccess := jobStatus = .partialSuccess }
  if document.row.currentAnalysisJobId = some job.id then do
    let status ← documentTransition document.row.status
      (AnalysisJobLifecycle.documentStatusFor jobStatus (0 < pending))
    let _ ← DocumentRepository.updateStatus document status
      { currentJob := some job.id, documentStatus := some document.row.status
        pendingCount := some pending }
    commit
  else commit

/-- Source: `_finalize`. -/
def finalize (results : List SourceResult) (jobId : Uuid) : Session Unit :=
  closing do
    let found ← AnalysisJobRepository.getById jobId
    match found with
    | none => pure ()
    | some job =>
        if AnalysisJobLifecycle.isTerminal job.row.status = true then pure ()
        else do
          let document ← DocumentRepository.getById job.row.documentId
          match document with
          | none => pure ()
          | some document => finishJob results job document

end AnalysisTasks

end SyncBack
