import SyncBack.Infrastructure.ParserRegistry
import SyncBack.Services.AnalysisJobService

/-!
# The document service

Uploading and deleting a document. The file of an upload goes to the storage before the row goes to
the database; both outcomes of the storage are a parameter. The files of a deleted document are
removed after the commit, and a failure is only logged. An `Upload` has the format that the extension of the file
name resolves to (`none` for an extension that is not accepted); `uploadOfFilename`
computes it.

Source: `app/domain/services/document_service.py`, `app/domain/policies.py`.
-/

namespace SyncBack

open Txn Session

/-- A file that is uploaded, with what the service computes from its name. -/
structure Upload where
  filename : String
  format : Option DocumentFormat
  /-- The extension that `document_storage_key` keeps in the key. -/
  extension : String
  size : ℕ
  /-- The storage accepts the file. -/
  stored : Bool

/-- Source: `UploadLimits.exceeded_by`. -/
def exceededBy (maxSizeBytes size : ℕ) : Bool := maxSizeBytes < size

namespace DocumentService

/-- Source: `FORMAT_BY_EXTENSION`. -/
def formatByExtension : List (Text × DocumentFormat) :=
  [(".docx".toList, .docx), (".txt".toList, .txt), (".md".toList, .markdown),
    (".markdown".toList, .markdown)]

/-- Source: `_extension_to_format`. -/
def extensionToFormat (suffix : Text) : Except UnsupportedFormatError DocumentFormat :=
  match formatByExtension.lookup suffix with
  | none => .error ⟨"Формат '" ++
      (if suffix = [] then "без расширения" else String.ofList suffix) ++
      "' не поддерживается. Допустимые форматы: docx, txt, md"⟩
  | some format => .ok format

/-- Source: `_resolve_format`. -/
def resolveFormat (lower : Text → Text) (filename : Text) :
    Except UnsupportedFormatError DocumentFormat :=
  extensionToFormat (lower (pathSuffix filename))

/-- The upload of a file under a name. -/
def uploadOfFilename (lower : Text → Text) (filename : Text) (size : ℕ)
    (stored : Bool) : Upload where
  filename := String.ofList filename
  format := (resolveFormat lower filename).toOption
  extension := String.ofList (fileExtension lower filename)
  size := size
  stored := stored

/-- Source: `DocumentService.upload_document`. Deleting the file of a row that was not stored
touches the storage alone. -/
def uploadDocument (maxSizeBytes : ℕ) (projectId : Uuid) (upload : Upload) :
    Session (Loaded Document) :=
  if exceededBy maxSizeBytes upload.size = true then throw .fileTooLarge
  else
    match upload.format with
    | none => throw .unsupportedFileFormat
    | some format => do
        let documentId ← uuid4
        if upload.stored = true then
          withUow do
            let saved ← DocumentRepository.create documentId projectId upload.filename format
              (documentStorageKey projectId documentId upload.extension) upload.size
            commit
            pure saved
        else throw .storageFailure

/-- `_document_storage_keys` of a row: the keys of its files, each once. -/
def storageKeys (row : Document) : List String :=
  (([some row.storageKey, row.originalStorageKey, row.exportedStorageKey].filterMap id).filter
    (· ≠ "")).eraseDups

/-- The result is the list of keys that are then removed from the storage.
Source: `DocumentService.delete_document_by_id`. -/
def deleteDocumentById (projectId documentId : Uuid) : Session (List String) :=
  withUow do
    let document ← getDocumentOrRaise projectId documentId
    if DocumentLifecycle.canDelete document.row.status = true then do
      let _ ← DocumentRepository.deleteDocumentScopedSources documentId
      let deleted ← DocumentRepository.deleteById documentId projectId
      match deleted with
      | none =>
          throw (.documentNotFound s!"Документ {documentId} не найден в проекте {projectId}")
      | some row => do
          commit
          pure (storageKeys row)
    else throw (.invalidDocumentStatus .deletedDuringAnalysis)

end DocumentService

end SyncBack
