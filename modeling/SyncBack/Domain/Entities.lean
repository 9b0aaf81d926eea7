import Mathlib.Data.Rat.Defs
import SyncBack.Domain.Lifecycle

/-!
# Rows, identifiers and errors

The columns of the tables that the modelled services and the worker read or write, and the domain
exceptions with their texts. Columns that no modelled function uses (creation times, retry
counters, offsets of a suggestion, …) are left out.

A `uuid4` is modelled by what the source relies on, that it is never drawn twice: the process that
drew it and a serial number.

Source: `app/infrastructure/db/models/*.py`, `app/domain/exceptions.py`.
-/

namespace SyncBack

/-- A process of the application: one HTTP request or one run of a worker task. -/
abbrev Process := ℕ

/-- An identifier drawn by `uuid.uuid4()`: the process that drew it and its serial number. -/
abbrev Uuid := Process × ℕ

/-- Document text, as the sequence of its characters. -/
abbrev Text := List Char

-- named, so that tests of membership refer to one proof
scoped instance : LawfulBEq Uuid := inferInstance

scoped instance : LawfulBEq Text := inferInstance

/-- Source: `DocumentFormatVO`. -/
inductive DocumentFormat where
  | docx
  | doc
  | txt
  | markdown
  deriving DecidableEq, Repr

/-- Source: `DocumentFormatVO` values. -/
def DocumentFormat.value : DocumentFormat → String
  | .docx => "docx"
  | .doc => "doc"
  | .txt => "txt"
  | .markdown => "markdown"

/-- Source: `SourceTypeVO`. -/
inductive SourceType where
  | file
  | url
  deriving DecidableEq, Repr

/-- Source: `SourceScopeVO`. -/
inductive SourceScope where
  | project
  | document
  deriving DecidableEq, Repr

/-- Source: `ChangeType`. -/
inductive ChangeType where
  | add
  | modify
  | delete
  deriving DecidableEq, Repr

/-- Source: `SOURCE_RUN_PENDING`, `SOURCE_RUN_PROCESSING`, `SOURCE_RUN_COMPLETED`. -/
inductive SourceRunStatus where
  | pending
  | processing
  | completed
  deriving DecidableEq, Repr

/-- What a session had read when it decided on a change of status. A history variable of the rows
below, not a column: no modelled function reads it. -/
structure Basis where
  /-- The current job of the loaded document. -/
  currentJob : Option Uuid := none
  /-- The status of the loaded document. -/
  documentStatus : Option DocumentStatus := none
  /-- The status of the loaded job. -/
  jobStatus : Option AnalysisJobStatus := none
  /-- How many suggestions of the job were counted as pending. -/
  pendingCount : Option ℕ := none
  deriving DecidableEq, Repr

/-! ## Tables -/

/-- A row of `documents`.
Source: `app/infrastructure/db/models/document.py`. -/
structure Document where
  projectId : Uuid
  name : String
  format : DocumentFormat
  storageKey : String
  sizeBytes : ℕ
  status : DocumentStatus := .draft
  reviewVersion : ℤ := 0
  currentAnalysisJobId : Option Uuid := none
  originalStorageKey : Option String := none
  exportedStorageKey : Option String := none
  /-- What the last change of `status` was decided on. -/
  basis : Basis := {}
  deriving DecidableEq, Repr

/-- A row of `analysis_jobs`.
Source: `app/infrastructure/db/models/analysis_job.py`. -/
structure AnalysisJob where
  documentId : Uuid
  status : AnalysisJobStatus := .pending
  idempotencyKey : Option String := none
  celeryTaskId : Option String := none
  errorCode : Option String := none
  errorMessage : Option String := none
  partialSuccess : Bool := false
  startedAt : Option ℕ := none
  finishedAt : Option ℕ := none
  /-- What the last change of `status` was decided on. -/
  basis : Basis := {}
  deriving DecidableEq, Repr

/-- A row of `suggestions`, with the sources linked to it.
Source: `app/infrastructure/db/models/suggestion.py`. -/
structure Suggestion where
  analysisJobId : Uuid
  documentId : Uuid
  sectionRef : Text
  changeType : ChangeType
  status : SuggestionStatus := .pending
  originalText : Option Text := none
  suggestedText : Option Text := none
  editedText : Option Text := none
  rationale : Option Text := none
  confidenceScore : Option ℚ := none
  decidedBy : Option Uuid := none
  decidedAt : Option ℕ := none
  sources : List Uuid := []
  /-- What the last change of `status` was decided on. -/
  basis : Basis := {}
  deriving DecidableEq, Repr

/-- A row of `analysis_job_sources`: the run of one source within one job.
Source: `app/infrastructure/db/models/analysis_job_source.py`. -/
structure AnalysisJobSource where
  status : SourceRunStatus := .pending
  suggestionsCount : ℕ := 0
  lockedAt : Option ℕ := none
  lockToken : Option Uuid := none
  finishedAt : Option ℕ := none
  deriving DecidableEq, Repr

/-- A row of `sources`.
Source: `app/infrastructure/db/models/source.py`. -/
structure Source where
  projectId : Uuid
  name : String
  type : SourceType
  storageKey : Option String := none
  url : Option String := none
  scope : SourceScope := .project
  deriving DecidableEq, Repr

/-! ## Exceptions -/

/-- Why an operation does not fit the status of a document or of a job: the raising places of
`InvalidDocumentStatusError`. -/
inductive InvalidStatus where
  | documentTransition (current target : DocumentStatus)
  | jobTransition (current target : AnalysisJobStatus)
  | cannotStartAnalysis (status : DocumentStatus)
  | cannotDispatch (status : AnalysisJobStatus)
  | cannotReset (status : DocumentStatus)
  | notAwaitingApproval
  | notResettable
  | changedConcurrently
  | deletedDuringAnalysis
  deriving DecidableEq

/-- The text of the exception. -/
def InvalidStatus.message : InvalidStatus → String
  | .documentTransition a b => s!"Переход документа {a.value} → {b.value} недопустим"
  | .jobTransition a b => s!"Переход задачи анализа {a.value} → {b.value} недопустим"
  | .cannotStartAnalysis a => s!"Анализ нельзя запустить для документа в статусе {a.value}"
  | .cannotDispatch a => s!"Задачу анализа в статусе {a.value} нельзя отправить в очередь"
  | .cannotReset a => s!"Сброс невозможен для документа в статусе {a.value}"
  | .notAwaitingApproval => "Решения по правкам доступны только в статусе 'awaiting_approval'"
  | .notResettable => "Отменить решение можно только в статусах 'awaiting_approval' и 'ready'"
  | .changedConcurrently => "Документ изменён параллельным запросом. Обновите данные и повторите."
  | .deletedDuringAnalysis => "Нельзя удалить документ, пока идёт анализ. Сначала отмените задачу."

/-- The exceptions that the modelled operations raise, with what their handlers read.
Source: `app/domain/exceptions.py`; the last five come from SQLAlchemy and from Python. -/
inductive DomainError where
  | documentNotFound (message : String)
  | unsupportedFileFormat
  | fileTooLarge
  | invalidDocumentStatus (reason : InvalidStatus)
  | analysisJobNotFound (message : String)
  | analysisAlreadyRunning
  | analysisJobConflict
  | analysisJobAlreadyExists (jobId : Uuid) (job : AnalysisJob)
  | analysisConfirmationRequired
  | analysisJobNotCancellable
  | suggestionNotFound (suggestionId : Uuid)
  | staleSuggestionJob (suggestionId jobId : Uuid)
  | suggestionAlreadyDecided (message : String)
  | suggestionResetNotAllowed (message : String)
  | reviewNotComplete (message : String)
  | optimisticLock
  | sourceNotFound (message : String)
  | sourceLock (message : String)
  | invalidSourceScope (message : String)
  | invalidSourceUrl (message : String)
  | storageFailure
  | databaseFailure
  | staleData
  | integrityError
  | runtimeError (message : String)
  | valueError (message : String)
  deriving DecidableEq

end SyncBack
