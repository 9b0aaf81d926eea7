import SyncBack.Services.DocumentService

/-!
# The source service

Creating, attaching and deleting sources. A source of a document may be created or attached only
while the document is not being analysed; a source may be deleted unless a document that it is
attached to is being analysed. As for documents, the outcome of the storage is a parameter, and a
file is removed after the commit.

Source: `app/domain/services/source_service.py`.
-/

namespace SyncBack

open Txn Session

namespace SourceService

/-- Source: `SourceService._assert_sources_mutable`. -/
def assertSourcesMutable (document : Loaded Document) : Session Unit :=
  if DocumentLifecycle.canEditSources document.row.status = true then pure ()
  else throw (.sourceLock s!"Нельзя изменить источники документа в статусе '{document.row.status.value}'. Дождитесь завершения анализа.")

/-- The document that a new source will be attached to, if any.
Source: `SourceService._target_document`. -/
def targetDocument (projectId : Uuid) (scope : SourceScope) (documentId : Option Uuid) :
    Session (Option (Loaded Document)) :=
  match scope, documentId with
  | .project, _ => pure none
  | .document, none =>
      throw (.invalidSourceScope "Для источника со scope=document нужен document_id")
  | .document, some documentId => do
      let document ← getDocumentOrRaise projectId documentId
      assertSourcesMutable document
      pure (some document)

/-- Attach a new source to its document, if it has one. -/
def attachTo (source : Loaded Source) : Option (Loaded Document) → Session Unit
  | some document => SourceRepository.attachToDocument source.id document.id
  | none => pure ()

/-- Source: `SourceService.attach_sources_to_document`. -/
def attachSourcesToDocument (document : Loaded Document) (sources : List Uuid) :
    Session (List Uuid) := do
  assertSourcesMutable document
  withUow do
    Prog.each sources fun sourceId => SourceRepository.attachToDocument sourceId document.id
    commit
    pure sources

/-- `url` is the address that `SourceUrl.parse` accepted, or the text of its exception.
Source: `SourceService.create_url_source`. -/
def createUrlSource (projectId : Uuid) (name : String) (url : Except String String)
    (scope : SourceScope) (documentId : Option Uuid) : Session (Loaded Source) :=
  match url with
  | .error message => throw (.invalidSourceUrl message)
  | .ok url => withUow do
      let document ← targetDocument projectId scope documentId
      let source ← SourceRepository.createUrl projectId name url scope
      attachTo source document
      commit
      pure source

/-- `file` has the size and the extension of the content, and says whether the storage accepts it.
Source: `SourceService._create_stored_source`. -/
def createStoredSource (maxSizeBytes : ℕ) (projectId : Uuid) (name : String) (file : Upload)
    (scope : SourceScope) (documentId : Option Uuid) : Session (Loaded Source) :=
  if exceededBy maxSizeBytes file.size = true then throw .fileTooLarge
  else do
    let sourceId ← uuid4
    withUow do
      let document ← targetDocument projectId scope documentId
      if file.stored = true then do
        let source ← SourceRepository.createWithId sourceId projectId name .file
          (sourceStorageKey projectId sourceId file.extension) scope
        attachTo source document
        commit
        pure source
      else throw .storageFailure

/-- Source: `SourceService.create_note_source`; the file of a note is named `note.txt`. -/
def createNoteSource (maxSizeBytes : ℕ) (projectId : Uuid) (name : String) (size : ℕ)
    (stored : Bool) (scope : SourceScope) (documentId : Option Uuid) : Session (Loaded Source) :=
  createStoredSource maxSizeBytes projectId name
    { filename := "note.txt", format := some .txt, extension := ".txt", size, stored } scope
    documentId

/-- Source: `SourceService.create_file_source`. -/
def createFileSource (maxSizeBytes : ℕ) (projectId : Uuid) (name : String) (file : Upload)
    (scope : SourceScope) (documentId : Option Uuid) : Session (Loaded Source) :=
  createStoredSource maxSizeBytes projectId name file scope documentId

/-- The result is the key that is then removed from the storage.
Source: `SourceService.delete_source`. -/
def deleteSource (projectId sourceId : Uuid) : Session (Option String) :=
  withUow do
    let found ← SourceRepository.getById sourceId
    match found with
    | none =>
        throw (.sourceNotFound s!"Источник {sourceId} не найден в проекте {projectId}")
    | some source =>
        if source.row.projectId = projectId then do
          let documentIds ← SourceRepository.listAttachedDocumentIds sourceId
          let documents ← DocumentRepository.getManyByIds documentIds
          Prog.each documents assertSourcesMutable
          SourceRepository.delete source
          commit
          pure source.row.storageKey
        else throw (.sourceNotFound s!"Источник {sourceId} не найден в проекте {projectId}")

end SourceService

end SyncBack
