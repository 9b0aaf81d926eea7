import SyncBack.Application.Operations
import SyncBack.Services.SourceService

/-!
# The operations on the documents and sources of a project

The requests that create, attach and delete sources and delete documents, beside the operations of
the analysis.

Source: `app/api/v1/routers/documents.py`, `app/api/v1/routers/sources.py`.
-/

namespace SyncBack

open Txn Session

/-- The operations of a project. -/
inductive ProjectOperation where
  | analysis (op : Operation)
  | deleteDocument (projectId documentId : Uuid)
  | deleteSource (projectId sourceId : Uuid)
  | createUrlSource (projectId : Uuid) (name : String) (url : Except String String)
      (scope : SourceScope) (documentId : Option Uuid)
  | createNoteSource (maxSizeBytes : ℕ) (projectId : Uuid) (name : String) (size : ℕ)
      (stored : Bool) (scope : SourceScope) (documentId : Option Uuid)
  | createFileSource (maxSizeBytes : ℕ) (projectId : Uuid) (name : String) (file : Upload)
      (scope : SourceScope) (documentId : Option Uuid)
  | attachSources (document : Loaded Document) (sources : List Uuid)

/-- The program of a process that performs the operation. -/
def ProjectOperation.program : ProjectOperation → Session Unit
  | analysis op => op.program
  | deleteDocument projectId documentId =>
      request (DocumentService.deleteDocumentById projectId documentId)
  | deleteSource projectId sourceId => request (SourceService.deleteSource projectId sourceId)
  | createUrlSource projectId name url scope documentId =>
      request (SourceService.createUrlSource projectId name url scope documentId)
  | createNoteSource maxSizeBytes projectId name size stored scope documentId =>
      request (SourceService.createNoteSource maxSizeBytes projectId name size stored scope
        documentId)
  | createFileSource maxSizeBytes projectId name file scope documentId =>
      request (SourceService.createFileSource maxSizeBytes projectId name file scope documentId)
  | attachSources document sources =>
      request (SourceService.attachSourcesToDocument document sources)

/-- A start of a run: no transaction is open, and every process is about to perform an operation. -/
structure ProjectStart (c : AppConfig) : Prop where
  quiet : ∀ k, c.db.dirty k = none
  procs : ∀ t p, c.procs t = some p → ∃ op : ProjectOperation, p = op.program

/-- The processes `0, 1, …` are about to perform the given operations. -/
def ProjectStart.config (rows : List (Sigma Row)) (ops : List ProjectOperation) : AppConfig where
  db := AppDb.ofRows rows []
  procs t := ops[t]?.map ProjectOperation.program

/-- Rows and operations make a start. -/
theorem ProjectStart.of_rows {rows : List (Sigma Row)} {ops : List ProjectOperation} :
    ProjectStart (ProjectStart.config rows ops) where
  quiet _ := rfl
  procs t p hp := by
    obtain ⟨op, -, rfl⟩ := Option.map_eq_some_iff.mp hp
    exact ⟨op, rfl⟩

end SyncBack
