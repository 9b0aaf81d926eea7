import SyncBack.Services.PublishingServices
import SyncBack.Strings.Search

/-!
# Requests and their answers

The requests of the API that start, cancel, review and reset an analysis: what the checks of their
bodies and headers let through, the operations that they start, and the status with which they are
answered, by the `except` clauses of the route and, after them, by the handlers of the application.

Left out: the bodies of the answers, the audit log that is written after the operation, and the checks
that come before all of this (the body as JSON, the user, the project).

Source: `app/api/v1/routers/{analysis_jobs,suggestions,editor}.py`,
`app/api/schemas/{review,suggestion}.py`, `app/main.py`.
-/

namespace SyncBack.Api

open Publishing

/-- A decision of a review as a client sends it. Source: `SuggestionDecision` of `schemas/review.py`. -/
structure DecisionPayload where
  suggestionId : Uuid
  accepted : Bool
  editedText : Option Text

namespace DecisionPayload

/-- The bounds of the field, and `_edited_only_when_accepted`. -/
def valid (d : DecisionPayload) : Bool :=
  match d.editedText with
  | some text => 1 ≤ text.length && text.length ≤ 20000 && d.accepted
  | none => true

/-- The ids with a decision. -/
def idsOf (accepted : Bool) (decisions : List DecisionPayload) : List Uuid :=
  (decisions.filter (·.accepted = accepted)).map (·.suggestionId)

/-- The edited texts of the accepted ones; of an id that occurs twice the last one counts. -/
def editedTexts (decisions : List DecisionPayload) (id : Uuid) : Option Text :=
  (decisions.filterMap fun d =>
    if d.accepted then d.editedText.map (d.suggestionId, ·) else none).reverse.lookup id

end DecisionPayload

/-- The requests. -/
inductive Request where
  | startAnalysisJob (projectId documentId : Uuid) (idempotencyKey : Option String) (force : Bool)
  | cancelAnalysisJob (projectId documentId jobId : Uuid)
  | patchSuggestions (projectId documentId : Uuid) (ids : Option (List Uuid))
      (filter : Option PatchFilter) (status : SuggestionStatus)
  | reviewSave (projectId documentId : Uuid) (ifMatch : Option Text) (reviewVersion : ℤ)
      (decisions : List DecisionPayload) (finalize : Bool)
  | resetSuggestion (projectId documentId suggestionId : Uuid)
  | resetAnalysis (projectId documentId : Uuid)

/-- A list that is there and not empty. Source: `bool(self.ids)`. -/
def truthy (ids : Option (List Uuid)) : Bool := ids.any (· ≠ [])

/-- `int` takes white space off itself. Source: `_parse_if_match`. -/
def parseIfMatch (int : Text → Option ℤ) (ifMatch : Text) : Option ℤ :=
  int (Strings.strip (· = '"') ifMatch)

/-! ## Exceptions -/

/-- The handlers of the application; what is not a `DomainError` is an internal error.
Source: `not_found_error_handler`, `domain_error_handler`. -/
def handled : DomainError → ℕ
  | .documentNotFound _ | .analysisJobNotFound _ | .suggestionNotFound _ | .staleSuggestionJob _ _
  | .sourceNotFound _ => 404
  | .storageFailure | .databaseFailure | .staleData | .integrityError | .runtimeError _
  | .valueError _ => 500
  | _ => 400

/-- The `except` clauses of a route: the exceptions that it answers itself. -/
abbrev Clauses := DomainError → Option ℕ

/-- The status of an exception of the domain that leaves the `try` of a route. -/
def Clauses.status (clauses : Clauses) (e : DomainError) : ℕ := (clauses e).getD (handled e)

/-- The clauses of `start_analysis_job`. -/
def startClauses : Clauses
  | .documentNotFound _ => some 404
  | .analysisJobAlreadyExists _ _ => some 200
  | .analysisConfirmationRequired | .analysisAlreadyRunning | .invalidDocumentStatus _ => some 409
  | _ => none

/-- The clauses of `cancel_analysis_job`. -/
def cancelClauses : Clauses
  | .documentNotFound _ => some 404
  | .analysisJobNotCancellable => some 409
  | _ => none

/-- The clauses of `patch_suggestions`. -/
def patchClauses : Clauses
  | .documentNotFound _ | .suggestionNotFound _ | .staleSuggestionJob _ _ => some 404
  | .invalidDocumentStatus _ | .suggestionAlreadyDecided _ | .suggestionResetNotAllowed _ => some 409
  | _ => none

/-- The clauses of `review_save`; `versioned` says whether the version came in the header. -/
def reviewClauses (versioned : Bool) : Clauses
  | .documentNotFound _ => some 404
  | .optimisticLock => some (if versioned then 412 else 409)
  | .suggestionAlreadyDecided _ | .invalidDocumentStatus _ | .reviewNotComplete _ => some 409
  | _ => none

/-- The clauses of `reset_suggestion`. -/
def resetSuggestionClauses : Clauses
  | .documentNotFound _ | .suggestionNotFound _ | .staleSuggestionJob _ _ => some 404
  | .invalidDocumentStatus _ | .suggestionResetNotAllowed _ => some 409
  | _ => none

/-- The clauses of `reset_analysis`. -/
def resetAnalysisClauses : Clauses
  | .documentNotFound _ => some 404
  | .invalidDocumentStatus _ => some 422
  | _ => none

/-- A `try` with these clauses: what the operation returns, or the status of the answer. -/
def excepting {α : Type} (clauses : Clauses) (x : ServiceM α) : ServiceM (α ⊕ ℕ) :=
  tryCatch (do
      let a ← x
      pure (.inl a)) fun e =>
    match e with
    | .domain d =>
        match clauses d with
        | some status => pure (.inr status)
        | none => throw e
    | .raised _ => throw e

/-! ## Routes -/

/-- A route around one operation. -/
def answering {α : Type} (clauses : Clauses) (x : ServiceM α) : ServiceM ℕ := do
  match ← excepting clauses x with
  | .inl _ => pure 200
  | .inr status => pure status

/-- The job with this key, if the request has one. -/
def existingJob (projectId documentId : Uuid) :
    Option String → ServiceM (Option (Loaded AnalysisJob))
  | some idempotencyKey =>
      if idempotencyKey = "" then pure none
      else Publishing.AnalysisJobService.findJobByIdempotencyKey projectId documentId idempotencyKey
  | none => pure none

/-- Source: `start_analysis_job`. -/
def startAnalysisJob (projectId documentId : Uuid) (idempotencyKey : Option String) (force : Bool) :
    ServiceM ℕ := do
  match ← existingJob projectId documentId idempotencyKey with
  | some existing => pure (if existing.row.documentId = documentId then 200 else 409)
  | none => do
      match ← excepting startClauses
        (Publishing.AnalysisJobService.createJob projectId documentId idempotencyKey force) with
      | .inl job => do
          let _ ← Publishing.AnalysisJobService.dispatchJob true job
          pure 201
      | .inr status => pure status

/-- The task of a cancelled job is revoked; an `Exception` is logged. -/
def revokeQuietly : Option String → ServiceM Unit
  | some celeryTaskId =>
      if celeryTaskId = "" then pure ()
      else tryCatch (Publishing.AnalysisJobService.revokeCeleryTask true celeryTaskId) fun e =>
        match e with
        | .raised .baseException => throw e
        | _ => pure ()
  | none => pure ()

/-- Source: `cancel_analysis_job`. -/
def cancelAnalysisJob (projectId documentId jobId : Uuid) : ServiceM ℕ := do
  match ← excepting cancelClauses
    (Publishing.AnalysisJobService.cancelJob projectId documentId jobId) with
  | .inl job => do
      revokeQuietly job.row.celeryTaskId
      pure 200
  | .inr status => pure status

/-- Source: `patch_suggestions` behind `_exactly_one_selector`. -/
def patchSuggestions (userId projectId documentId : Uuid) (ids : Option (List Uuid))
    (filter : Option PatchFilter) (status : SuggestionStatus) : ServiceM ℕ :=
  if truthy ids = filter.isSome then pure 422
  else answering patchClauses
    (Publishing.SuggestionService.patchSuggestions projectId documentId userId status ids filter)

/-- The operation of `review_save`, for a version from the header or from the body. -/
def saveReview (userId projectId documentId : Uuid) (versioned : Bool) (reviewVersion : ℤ)
    (decisions : List DecisionPayload) (finalize : Bool) : ServiceM ℕ :=
  answering (reviewClauses versioned)
    (Publishing.SuggestionService.atomicReviewSave projectId documentId userId reviewVersion
      (DecisionPayload.idsOf true decisions) (DecisionPayload.idsOf false decisions) finalize false
      (DecisionPayload.editedTexts decisions))

/-- Source: `review_save` behind `ReviewSaveRequest`. -/
def reviewSave (int : Text → Option ℤ) (userId projectId documentId : Uuid) (ifMatch : Option Text)
    (reviewVersion : ℤ) (decisions : List DecisionPayload) (finalize : Bool) : ServiceM ℕ :=
  if decisions.all DecisionPayload.valid = true then
    match ifMatch with
    | none => saveReview userId projectId documentId false reviewVersion decisions finalize
    | some header =>
        match parseIfMatch int header with
        | some version => saveReview userId projectId documentId true version decisions finalize
        | none => pure 400
  else pure 422

namespace Request

/-- The route of a request of this user. -/
def route (int : Text → Option ℤ) (userId : Uuid) : Request → ServiceM ℕ
  | startAnalysisJob projectId documentId idempotencyKey force =>
      Api.startAnalysisJob projectId documentId idempotencyKey force
  | cancelAnalysisJob projectId documentId jobId => Api.cancelAnalysisJob projectId documentId jobId
  | patchSuggestions projectId documentId ids filter status =>
      Api.patchSuggestions userId projectId documentId ids filter status
  | reviewSave projectId documentId ifMatch reviewVersion decisions finalize =>
      Api.reviewSave int userId projectId documentId ifMatch reviewVersion decisions finalize
  | resetSuggestion projectId documentId suggestionId =>
      answering resetSuggestionClauses
        (Publishing.SuggestionService.resetSuggestion projectId documentId suggestionId)
  | resetAnalysis projectId documentId =>
      answering resetAnalysisClauses (Publishing.AnalysisJobService.resetAnalysis projectId documentId)

/-- The route within the handlers of the application. -/
def answer (int : Text → Option ℤ) (userId : Uuid) (request : Request) : ServiceM ℕ :=
  tryCatch (request.route int userId) fun e =>
    match e with
    | .domain d => pure (handled d)
    | .raised (.exception _) => pure 500
    | .raised .baseException => throw e

end Request

end SyncBack.Api
