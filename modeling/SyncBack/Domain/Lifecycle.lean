import Mathlib.Data.List.Basic

/-!
# The life cycles of a document and of an analysis job

`app/domain/lifecycle.py` is the one place of the source that says which status changes are legal
and what may be done in each status. The two transition tables are functions here; a refused
transition is `none`, and the callers turn it into `InvalidDocumentStatusError`.

Source: `app/domain/lifecycle.py`, `app/domain/value_objects.py`.
-/

namespace SyncBack

/-- Source: `DocumentStatusVO`. -/
inductive DocumentStatus where
  | draft
  | inProgress
  | awaitingApproval
  | ready
  deriving DecidableEq, Repr

/-- Source: `AnalysisJobStatusVO`. -/
inductive AnalysisJobStatus where
  | pending
  | dispatched
  | processing
  | success
  | partialSuccess
  | failed
  | cancelled
  deriving DecidableEq, Repr

/-- Source: `SuggestionStatusVO`. -/
inductive SuggestionStatus where
  | pending
  | accepted
  | rejected
  deriving DecidableEq, Repr

/-- The value that the source stores and prints for a document status. -/
def DocumentStatus.value : DocumentStatus → String
  | .draft => "draft"
  | .inProgress => "in_progress"
  | .awaitingApproval => "awaiting_approval"
  | .ready => "ready"

/-- The value that the source stores and prints for a job status. -/
def AnalysisJobStatus.value : AnalysisJobStatus → String
  | .pending => "pending"
  | .dispatched => "dispatched"
  | .processing => "processing"
  | .success => "success"
  | .partialSuccess => "partial_success"
  | .failed => "failed"
  | .cancelled => "cancelled"

/-! ## The document -/

/-- Source: `_DOCUMENT_TRANSITIONS`. -/
def documentTransitions : DocumentStatus → List DocumentStatus
  | .draft => [.draft, .inProgress]
  | .inProgress => [.awaitingApproval, .ready, .draft]
  | .awaitingApproval => [.ready, .draft, .awaitingApproval]
  | .ready => [.draft, .awaitingApproval]

namespace DocumentLifecycle

/-- Source: `DocumentLifecycle.transition`; `none` is the exception. -/
def transition (current target : DocumentStatus) : Option DocumentStatus :=
  if target ∈ documentTransitions current then some target else none

/-- Source: `DocumentLifecycle.can_start_analysis` over `ANALYZABLE`. -/
def canStartAnalysis (status : DocumentStatus) : Bool :=
  status ∈ [DocumentStatus.draft, .awaitingApproval, .ready]

/-- Source: `DocumentLifecycle.analysis_needs_confirmation`. -/
def analysisNeedsConfirmation (status : DocumentStatus) : Bool := status ∈ [DocumentStatus.ready]

/-- Source: `DocumentLifecycle.can_edit_sources` over `SOURCES_LOCKED`. -/
def canEditSources (status : DocumentStatus) : Bool := status ∉ [DocumentStatus.inProgress]

/-- Source: `DocumentLifecycle.can_delete`. -/
def canDelete (status : DocumentStatus) : Bool := status ≠ .inProgress

/-- Source: `DocumentLifecycle.can_review`. -/
def canReview (status : DocumentStatus) : Bool := status = .awaitingApproval

/-- Source: `DocumentLifecycle.can_reset_review` over `REVIEW_RESETTABLE`. -/
def canResetReview (status : DocumentStatus) : Bool :=
  status ∈ [DocumentStatus.awaitingApproval, .ready]

/-- A transition of a document is one of its table. -/
theorem transition_eq_some {current target status : DocumentStatus} :
    transition current target = some status ↔
      status = target ∧ target ∈ documentTransitions current := by
  unfold transition
  split
  · rename_i h
    simp [h, eq_comm]
  · rename_i h
    simp [h]

end DocumentLifecycle

/-! ## The analysis job -/

/-- Source: `_JOB_TRANSITIONS`. -/
def jobTransitions : AnalysisJobStatus → List AnalysisJobStatus
  | .pending => [.dispatched, .failed, .cancelled]
  | .dispatched => [.processing, .success, .partialSuccess, .failed, .cancelled]
  | .processing => [.success, .partialSuccess, .failed, .cancelled]
  | .success | .partialSuccess | .failed | .cancelled => []

namespace AnalysisJobLifecycle

/-- Source: `AnalysisJobLifecycle.transition`; `none` is the exception. -/
def transition (current target : AnalysisJobStatus) : Option AnalysisJobStatus :=
  if target ∈ jobTransitions current then some target else none

/-- Source: `AnalysisJobLifecycle.is_active` over `ACTIVE`. -/
def isActive (status : AnalysisJobStatus) : Bool :=
  status ∈ [AnalysisJobStatus.pending, .dispatched, .processing]

/-- Source: `AnalysisJobLifecycle.is_terminal` over `TERMINAL`. -/
def isTerminal (status : AnalysisJobStatus) : Bool :=
  status ∈ [AnalysisJobStatus.success, .partialSuccess, .failed, .cancelled]

/-- Source: `AnalysisJobLifecycle.can_cancel`. -/
def canCancel (status : AnalysisJobStatus) : Bool := isActive status

/-- Source: `AnalysisJobLifecycle.can_dispatch`. -/
def canDispatch (status : AnalysisJobStatus) : Bool := status = .pending

/-- The document status that goes with the status of its current job.
Source: `AnalysisJobLifecycle.document_status_for`. -/
def documentStatusFor (jobStatus : AnalysisJobStatus) (hasPendingSuggestions : Bool) :
    DocumentStatus :=
  if jobStatus ∈ [AnalysisJobStatus.dispatched, .processing] then .inProgress
  else if jobStatus ∈ [AnalysisJobStatus.success, .partialSuccess] then
    if hasPendingSuggestions then .awaitingApproval else .ready
  else .draft

/-- A transition of a job is one of its table. -/
theorem transition_eq_some {current target status : AnalysisJobStatus} :
    transition current target = some status ↔ status = target ∧ target ∈ jobTransitions current := by
  unfold transition
  split
  · rename_i h
    simp [h, eq_comm]
  · rename_i h
    simp [h]

/-- The active and the terminal statuses are complementary. -/
@[simp] theorem isTerminal_eq_not_isActive (status : AnalysisJobStatus) :
    isTerminal status = !isActive status := by
  cases status <;> rfl

/-- No transition leaves a terminal status: a legal transition starts from an active one. -/
theorem isActive_of_mem_jobTransitions {current target : AnalysisJobStatus}
    (h : target ∈ jobTransitions current) : isActive current = true := by
  cases current <;> simp_all [jobTransitions, isActive]

/-- A legal transition changes the status. -/
theorem ne_of_mem_jobTransitions {current target : AnalysisJobStatus}
    (h : target ∈ jobTransitions current) : target ≠ current := by
  rintro rfl
  cases target <;> simp [jobTransitions] at h

end AnalysisJobLifecycle

end SyncBack
