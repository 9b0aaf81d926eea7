import SyncBack.Services.BulkAnalysis

/-!
# Documents as clients see them

A client sees one of four statuses of a document and, apart from it, how its analysis stands. Both are
computed from the status of the document and its current job, which are read one after the other. A
list is filtered by the status of the document.

Left out: the columns that no check reads (`uploaded_at`), and paging, which is a parameter of a list.

Source: `app/api/schemas/document.py`, `app/api/v1/routers/documents.py`,
`app/domain/services/document_service.py`.
-/

namespace SyncBack

open Txn Session

/-- Source: `AnalysisStateResponse.state`. -/
inductive AnalysisState where
  | pending
  | processing
  | completed
  | failed
  | cancelled
  deriving DecidableEq

/-- Source: `AnalysisStateResponse`. -/
structure AnalysisStateResponse where
  jobId : Option Uuid := none
  state : AnalysisState
  errorCode : Option String := none
  errorMessage : Option String := none
  canRetry : Bool := true
  deriving DecidableEq

/-- Python's `text or default`. -/
def textOr (text : Option String) (default : String) : String :=
  (text.filter (· ≠ "")).getD default

/-- Source: `resolve_document_public_status_and_analysis`. -/
def resolveDocumentPublicStatusAndAnalysis (docStatus : DocumentStatus) :
    Option (Loaded AnalysisJob) → DocumentStatus × Option AnalysisStateResponse
  | none => (docStatus, none)
  | some job =>
      match job.row.status with
      | .failed =>
          (.draft, some
            { jobId := some job.id, state := .failed
              errorCode := some (textOr job.row.errorCode "ANALYSIS_FAILED")
              errorMessage := some (textOr job.row.errorMessage "Ошибка выполнения анализа") })
      | .cancelled =>
          (.draft, some
            { jobId := some job.id, state := .cancelled, errorCode := some "ANALYSIS_CANCELLED"
              errorMessage := some "Анализ отменён пользователем" })
      | .pending => (.inProgress, some { jobId := some job.id, state := .pending, canRetry := false })
      | .processing | .dispatched =>
          (.inProgress, some { jobId := some job.id, state := .processing, canRetry := false })
      | .success | .partialSuccess =>
          (docStatus, some { jobId := some job.id, state := .completed })

/-- Source: `DocumentResponse`. -/
structure DocumentResponse where
  id : Uuid
  projectId : Uuid
  name : String
  format : DocumentFormat
  sizeBytes : ℕ
  status : DocumentStatus
  currentAnalysisJobId : Option Uuid
  reviewVersion : ℤ
  analysis : Option AnalysisStateResponse
  deriving DecidableEq

/-- Source: `document_response`. -/
def documentResponse (document : Loaded Document) (latestJob : Option (Loaded AnalysisJob)) :
    DocumentResponse :=
  let resolved := resolveDocumentPublicStatusAndAnalysis document.row.status latestJob
  { id := document.id
    projectId := document.row.projectId
    name := document.row.name
    format := document.row.format
    sizeBytes := document.row.sizeBytes
    status := resolved.1
    currentAnalysisJobId := document.row.currentAnalysisJobId
    reviewVersion := document.row.reviewVersion
    analysis := resolved.2 }

/-- The value of a key in a dict comprehension: of a key that occurs twice, the last one. -/
def dictGet {α β : Type} [BEq α] (items : List (α × β)) (key : α) : Option β :=
  items.reverse.lookup key

/-- Source: `DocumentService.current_analysis_jobs`. -/
def DocumentService.currentAnalysisJobs (documents : List (Loaded Document)) :
    Session (Uuid → Option (Loaded AnalysisJob)) :=
  let jobToDocument := documents.filterMap fun document =>
    document.row.currentAnalysisJobId.map (·, document.id)
  if jobToDocument = [] then pure fun _ => none
  else do
    let jobs ← withUow (AnalysisJobRepository.listByIds (jobToDocument.map (·.1)))
    pure (dictGet (jobs.filterMap fun job => (dictGet jobToDocument job.id).map (·, job)))

/-- Source: `DocumentService.get_document`. -/
def DocumentService.getDocument (projectId documentId : Uuid) : Session (Loaded Document) := do
  let found ← withUow (DocumentRepository.getById documentId)
  match found with
  | some document =>
      if document.row.projectId = projectId then pure document
      else throw (.documentNotFound s!"Документ {documentId} не найден в проекте {projectId}")
  | none => throw (.documentNotFound s!"Документ {documentId} не найден в проекте {projectId}")

namespace DocumentRepository

/-- The documents of a project with a status, in any order. Source: the conditions of
`list_for_project`. -/
def withStatus (projectId : Uuid) (status : Option DocumentStatus) :
    Session (List (Loaded Document)) := do
  let rows ← select fun
    | .document _, row => row.projectId = projectId && status.all (row.status = ·)
    | _, _ => false
  pure (rows.filterMap fun
    | ⟨.document id, row⟩ => some ⟨id, row⟩
    | _ => none)

/-- Source: `DocumentRepository.count_for_project`. -/
def countForProject (projectId : Uuid) (status : Option DocumentStatus) : Session ℕ := do
  let found ← withStatus projectId status
  pure found.length

end DocumentRepository

/-- `page` is what `ORDER BY`, the cursor and the limit make of the rows.
Source: `DocumentService.list_documents`. -/
def DocumentService.listDocuments (page : List (Loaded Document) → List (Loaded Document))
    (projectId : Uuid) (status : Option DocumentStatus) :
    Session (List (Loaded Document) × ℕ) :=
  withUow do
    let found ← DocumentRepository.withStatus projectId status
    let total ← DocumentRepository.countForProject projectId status
    pure (page found, total)

namespace Api

/-- Source: `get_document` of `routers/documents.py`. -/
def getDocument (projectId documentId : Uuid) : Session DocumentResponse := do
  let document ← DocumentService.getDocument projectId documentId
  let jobs ← DocumentService.currentAnalysisJobs [document]
  pure (documentResponse document (jobs document.id))

/-- Source: `list_documents` of `routers/documents.py`. -/
def listDocuments (page : List (Loaded Document) → List (Loaded Document)) (projectId : Uuid)
    (status : Option DocumentStatus) : Session (List DocumentResponse × ℕ) := do
  let (documents, total) ← DocumentService.listDocuments page projectId status
  let jobs ← DocumentService.currentAnalysisJobs documents
  pure (documents.map fun document => documentResponse document (jobs document.id), total)

end Api

end SyncBack
