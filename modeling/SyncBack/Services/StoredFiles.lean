import SyncBack.Infrastructure.FileTables
import SyncBack.Services.SourceService
import SyncBack.Services.SuggestionService
import SyncBack.TwoStores.References

/-!
# The services and the file storage

The operations that store or remove files, with the calls to the storage in their places among the
calls to the database. Any call may raise and the process may stop before any call. The identifier
that `uuid.uuid4()` draws is a parameter, and a file is the key that it is stored under.

Source: `app/domain/services/document_service.py`, `source_service.py`, `project_service.py`,
`document_export_service.py`.
-/

namespace SyncBack.Files

open TwoStores
open TwoStores.Prog (call transaction deleting compensate undoing)

/-- Read a document and check its project. Source: inline in `DocumentService` and `SourceService`. -/
def getDocumentOrRaise (projectId documentId : Uuid) : FileQuery (Loaded Document) := do
  let found ← DocumentRepository.getById documentId
  match found with
  | some document =>
      if document.row.projectId = projectId then pure document
      else raise (.documentNotFound s!"Документ {documentId} не найден в проекте {projectId}")
  | none => raise (.documentNotFound s!"Документ {documentId} не найден в проекте {projectId}")

/-! ## Documents -/

namespace DocumentService

/-- Source: `DocumentService.upload_document`. -/
def uploadDocument (lower : Text → Text) (maxSizeBytes : ℕ) (projectId documentId : Uuid)
    (filename : Text) (size : ℕ) : FileSession (Loaded Document) :=
  if exceededBy maxSizeBytes size = true then .throw .fileTooLarge
  else
    match SyncBack.DocumentService.resolveFormat lower filename with
    | .error _ => .throw .unsupportedFileFormat
    | .ok format => do
        let storageKey :=
          documentStorageKey projectId documentId (String.ofList (fileExtension lower filename))
        let _ ← call .storageFailure (.put storageKey)
        (transaction .databaseFailure (DocumentRepository.create documentId projectId
          (String.ofList filename) format storageKey size)).handle
            (compensate .storageFailure storageKey)

/-- The part of `delete_document_by_id` before the commit; the result is the keys that
`_document_storage_keys` makes of the deleted row. -/
def deleteRowsById (projectId documentId : Uuid) : FileQuery (List String) := do
  let document ← getDocumentOrRaise projectId documentId
  if DocumentLifecycle.canDelete document.row.status = true then do
    let _ ← DocumentRepository.deleteDocumentScopedSources documentId
    let deleted ← DocumentRepository.deleteById documentId projectId
    match deleted with
    | none => raise (.documentNotFound s!"Документ {documentId} не найден в проекте {projectId}")
    | some row => pure (SyncBack.DocumentService.storageKeys row)
  else raise (.invalidDocumentStatus .deletedDuringAnalysis)

/-- Source: `DocumentService.delete_document_by_id`. -/
def deleteDocumentById (projectId documentId : Uuid) : FileSession Unit :=
  deleting .databaseFailure (deleteRowsById projectId documentId)

/-- The part of `delete_document` before the commit, for a document that the caller has loaded. -/
def deleteRows (projectId documentId : Uuid) : FileQuery (List String) := do
  let document ← getDocumentOrRaise projectId documentId
  let _ ← DocumentRepository.deleteDocumentScopedSources documentId
  let _ ← DocumentRepository.delete document
  pure (SyncBack.DocumentService.storageKeys document.row)

/-- Source: `DocumentService.delete_document`. -/
def deleteDocument (projectId documentId : Uuid) : FileSession Unit :=
  deleting .databaseFailure (deleteRows projectId documentId)

end DocumentService

/-! ## Sources -/

namespace SourceService

/-- Source: `SourceService._assert_sources_mutable`. -/
def assertSourcesMutable (document : Loaded Document) : FileQuery Unit :=
  if DocumentLifecycle.canEditSources document.row.status = true then pure ()
  else raise (.sourceLock s!"Нельзя изменить источники документа в статусе '{document.row.status.value}'. Дождитесь завершения анализа.")

/-- Source: `SourceService._target_document`. -/
def targetDocument (projectId : Uuid) (scope : SourceScope) (documentId : Option Uuid) :
    FileQuery (Option (Loaded Document)) :=
  match scope, documentId with
  | .project, _ => pure none
  | .document, none =>
      raise (.invalidSourceScope "Для источника со scope=document нужен document_id")
  | .document, some documentId => do
      let document ← getDocumentOrRaise projectId documentId
      let _ ← assertSourcesMutable document
      pure (some document)

/-- Attach a new source to its document, if it has one. -/
def attachTo (source : Loaded Source) : Option (Loaded Document) → FileQuery Unit
  | some document => SourceRepository.attachToDocument source.id document.id
  | none => pure ()

/-- Source: `SourceService.attach_sources_to_document`, for a document that the caller has loaded. -/
def attachSourcesToDocument (projectId documentId : Uuid) (sources : List Uuid) :
    FileSession Unit :=
  transaction .databaseFailure do
    let document ← getDocumentOrRaise projectId documentId
    let _ ← assertSourcesMutable document
    Query.each sources fun sourceId => SourceRepository.attachToDocument sourceId document.id

/-- Source: `SourceService.create_url_source`, for an address that `SourceUrl.parse` accepted. -/
def createUrlSource (projectId sourceId : Uuid) (name url : String) (scope : SourceScope)
    (documentId : Option Uuid) : FileSession (Loaded Source) :=
  transaction .databaseFailure do
    let document ← targetDocument projectId scope documentId
    let source ← SourceRepository.createUrl sourceId projectId name url scope
    let _ ← attachTo source document
    pure source

/-- The exceptions of the body are raised while the variable `uploaded` has this value. -/
def whileUploaded {α : Type} (uploaded : Bool) (body : FileSession α) :
    TwoStores.Prog Tables String (DomainError × Bool) α :=
  body.handle fun e => .throw (e, uploaded)

/-- The row of a new source, and the link to its document. -/
def createRows (sourceId projectId : Uuid) (name storageKey : String) (scope : SourceScope)
    (document : Option (Loaded Document)) : FileQuery (Loaded Source) := do
  let source ← SourceRepository.createWithId sourceId projectId name .file storageKey scope
  let _ ← attachTo source document
  pure source

/-- Source: `SourceService._create_stored_source`. -/
def createStoredSource (lower : Text → Text) (maxSizeBytes : ℕ) (projectId sourceId : Uuid)
    (name : String) (filename : Text) (size : ℕ) (scope : SourceScope) (documentId : Option Uuid) :
    FileSession (Loaded Source) :=
  if exceededBy maxSizeBytes size = true then .throw .fileTooLarge
  else
    let storageKey :=
      sourceStorageKey projectId sourceId (String.ofList (fileExtension lower filename))
    (undoing (fun (_, uploaded) => (.databaseFailure, uploaded)) do
      let document ← whileUploaded false
        ((targetDocument projectId scope documentId).calls .databaseFailure)
      let _ ← whileUploaded false (call .storageFailure (.put storageKey))
      whileUploaded true do
        let source ←
          (createRows sourceId projectId name storageKey scope document).calls .databaseFailure
        let _ ← call .databaseFailure .commit
        pure source).handle fun (e, uploaded) =>
      if uploaded = true then compensate .storageFailure storageKey e else .throw e

/-- Source: `SourceService.create_note_source`. -/
def createNoteSource (lower : Text → Text) (maxSizeBytes : ℕ) (projectId sourceId : Uuid)
    (name : String) (size : ℕ) (scope : SourceScope) (documentId : Option Uuid) :
    FileSession (Loaded Source) :=
  createStoredSource lower maxSizeBytes projectId sourceId name "note.txt".toList size scope
    documentId

/-- Source: `SourceService.create_file_source`. -/
def createFileSource (lower : Text → Text) (maxSizeBytes : ℕ) (projectId sourceId : Uuid)
    (name : String) (filename : Text) (size : ℕ) (scope : SourceScope) (documentId : Option Uuid) :
    FileSession (Loaded Source) :=
  createStoredSource lower maxSizeBytes projectId sourceId name filename size scope documentId

/-- The part of `delete_source` before the commit; the result is the key to remove, if any. -/
def deleteRow (projectId sourceId : Uuid) : FileQuery (List String) := do
  let found ← SourceRepository.getById sourceId
  match found with
  | none => raise (.sourceNotFound s!"Источник {sourceId} не найден в проекте {projectId}")
  | some source =>
      if source.row.projectId = projectId then do
        let documentIds ← SourceRepository.listAttachedDocumentIds sourceId
        let documents ← DocumentRepository.getManyByIds documentIds
        let _ ← Query.each documents assertSourcesMutable
        let _ ← SourceRepository.delete source
        pure (source.row.storageKey.toList.filter (· ≠ ""))
      else raise (.sourceNotFound s!"Источник {sourceId} не найден в проекте {projectId}")

/-- Source: `SourceService.delete_source`. -/
def deleteSource (projectId sourceId : Uuid) : FileSession Unit :=
  deleting .databaseFailure (deleteRow projectId sourceId)

end SourceService

/-! ## Projects and exports -/

namespace ProjectService

/-- The part of `delete_project` before the commit, for a project that the caller has loaded. -/
def deleteRows (projectId : Uuid) : FileQuery (List String) := do
  let storageKeys ← ProjectRepository.collectStorageKeys projectId
  let _ ← ProjectRepository.delete projectId
  pure storageKeys

/-- Source: `ProjectService.delete_project`. -/
def deleteProject (projectId : Uuid) : FileSession Unit :=
  deleting .databaseFailure (deleteRows projectId)

end ProjectService

namespace DocumentExportService

/-- The accepted changes and their application to the file are the parameter `exporting`; the file
that they are applied to is read first. Source: `DocumentExportService.export_and_save`. -/
def exportAndSave (document : Loaded Document) (exporting : ExportRun) : FileSession Unit := do
  let present : Bool ← call .storageFailure (.get document.row.storageKey)
  if present = true then
    match exporting with
    | .fails => .throw (.valueError "")
    | .saves => do
        let exportKey := document.row.storageKey ++ ".exported"
        let _ ← call .storageFailure (.put exportKey)
        transaction .databaseFailure (DocumentRepository.updateExportedKey document exportKey)
  else .throw .storageFailure

/-- The export of a document that a review finalises. Source: `SuggestionService._run_export`. -/
def runExport (projectId documentId : Uuid) (exporting : ExportRun) : FileSession Unit := do
  let document ← (getDocumentOrRaise projectId documentId).calls .databaseFailure
  (exportAndSave document exporting).handle fun _ =>
    .throw (.reviewNotComplete "Не удалось применить утверждённые правки к документу.")

end DocumentExportService

/-! ## Operations -/

/-- The operations on projects, documents and sources that run one after another. A change of status
stands for all other operations of a document: they change neither its sources nor its keys. -/
inductive FileOperation where
  | createProject (projectId : Uuid)
  | uploadDocument (maxSizeBytes : ℕ) (projectId documentId : Uuid) (filename : Text) (size : ℕ)
  | createNoteSource (maxSizeBytes : ℕ) (projectId sourceId : Uuid) (name : String) (size : ℕ)
      (scope : SourceScope) (documentId : Option Uuid)
  | createFileSource (maxSizeBytes : ℕ) (projectId sourceId : Uuid) (name : String)
      (filename : Text) (size : ℕ) (scope : SourceScope) (documentId : Option Uuid)
  | createUrlSource (projectId sourceId : Uuid) (name url : String) (scope : SourceScope)
      (documentId : Option Uuid)
  | attachSources (projectId documentId : Uuid) (sources : List Uuid)
  | changeStatus (documentId : Uuid) (status : DocumentStatus)
  | runExport (projectId documentId : Uuid) (exporting : ExportRun)
  | deleteSource (projectId sourceId : Uuid)
  | deleteDocumentById (projectId documentId : Uuid)
  | deleteDocument (projectId documentId : Uuid)
  | deleteProject (projectId : Uuid)

namespace FileOperation

/-- The program of an operation. -/
def program (lower : Text → Text) : FileOperation → FileSession Unit
  | createProject projectId => transaction .databaseFailure (ProjectRepository.create projectId)
  | uploadDocument maxSizeBytes projectId documentId filename size => do
      let _ ← DocumentService.uploadDocument lower maxSizeBytes projectId documentId filename size
  | createNoteSource maxSizeBytes projectId sourceId name size scope documentId => do
      let _ ← SourceService.createNoteSource lower maxSizeBytes projectId sourceId name size scope
        documentId
  | createFileSource maxSizeBytes projectId sourceId name filename size scope documentId => do
      let _ ← SourceService.createFileSource lower maxSizeBytes projectId sourceId name filename
        size scope documentId
  | createUrlSource projectId sourceId name url scope documentId => do
      let _ ← SourceService.createUrlSource projectId sourceId name url scope documentId
  | attachSources projectId documentId sources =>
      SourceService.attachSourcesToDocument projectId documentId sources
  | changeStatus documentId status => transaction .databaseFailure (Query.modify fun t =>
      { t with documents := t.documents.modify documentId fun row => { row with status } })
  | runExport projectId documentId exporting =>
      DocumentExportService.runExport projectId documentId exporting
  | deleteSource projectId sourceId => SourceService.deleteSource projectId sourceId
  | deleteDocumentById projectId documentId =>
      DocumentService.deleteDocumentById projectId documentId
  | deleteDocument projectId documentId => DocumentService.deleteDocument projectId documentId
  | deleteProject projectId => ProjectService.deleteProject projectId

/-- The identifiers that the operation draws are not those of committed rows. -/
def Fresh (t : Tables) : FileOperation → Prop
  | uploadDocument _ _ documentId _ _ => documentId ∉ t.documents.rows.map Loaded.id
  | createNoteSource _ _ sourceId _ _ _ _ | createFileSource _ _ sourceId _ _ _ _ _
  | createUrlSource _ sourceId _ _ _ _ => sourceId ∉ t.sources.rows.map Loaded.id
  | _ => True

end FileOperation

/-- The tables and the files. -/
abbrev FileStores : Type := Stores Tables String

end SyncBack.Files
