import Mathlib.Data.List.Nodup
import SyncBack.Infrastructure.Repositories
import SyncBack.TwoStores.Program

/-!
# The tables that name files, as one database

The rows of projects, documents and sources, and the links between the last two, as a value that a
transaction changes as a whole. The repositories are the ones of `Repositories`, for the programs
that also use the file storage: these run one after another, so that what another transaction
changes meanwhile is of no account, and any statement may fail.

Source: `app/infrastructure/db/repositories/document_repository.py`, `source_repository.py`,
`project_repository.py`; `app/infrastructure/db/models/*.py` for the keys.
-/

namespace SyncBack

/-- The rows of a table, no two with one identifier. -/
structure Table (ρ : Type) where
  rows : List (Loaded ρ)
  nodup : (rows.map Loaded.id).Nodup

namespace Table

variable {ρ : Type}

def empty : Table ρ := ⟨[], List.nodup_nil⟩

def find? (t : Table ρ) (id : Uuid) : Option (Loaded ρ) := t.rows.find? fun x => x.id = id

/-- The table with one more row, unless the identifier is taken. -/
def insert (t : Table ρ) (id : Uuid) (row : ρ) : Option (Table ρ) :=
  if h : id ∉ t.rows.map Loaded.id then some ⟨⟨id, row⟩ :: t.rows, List.nodup_cons.mpr ⟨h, t.nodup⟩⟩
  else none

/-- The rows that are kept. -/
def filter (t : Table ρ) (p : Loaded ρ → Bool) : Table ρ where
  rows := t.rows.filter p
  nodup := t.nodup.sublist (List.filter_sublist.map _)

/-- Change the row with the identifier. -/
def modify (t : Table ρ) (id : Uuid) (f : ρ → ρ) : Table ρ where
  rows := t.rows.map fun x => if x.id = id then ⟨x.id, f x.row⟩ else x
  nodup := by
    have hid : (Loaded.id ∘ fun x : Loaded ρ => if x.id = id then ⟨x.id, f x.row⟩ else x) =
        Loaded.id := by
      funext x
      simp only [Function.comp_apply]
      split <;> rfl
    rw [List.map_map, hid]
    exact t.nodup

/-- What is found is a row with the identifier. -/
theorem find?_some {t : Table ρ} {id : Uuid} {x : Loaded ρ} (h : t.find? id = some x) :
    x ∈ t.rows ∧ x.id = id :=
  ⟨List.mem_of_find?_eq_some h, by simpa using List.find?_some h⟩

/-- What is inserted is a new row. -/
theorem insert_some {t t' : Table ρ} {id : Uuid} {row : ρ} (h : t.insert id row = some t') :
    t'.rows = ⟨id, row⟩ :: t.rows ∧ id ∉ t.rows.map Loaded.id := by
  unfold insert at h
  split at h
  · rename_i hid
    cases h
    exact ⟨rfl, hid⟩
  · cases h

/-- The rows that are left. -/
@[simp] theorem mem_filter {t : Table ρ} {p : Loaded ρ → Bool} {x : Loaded ρ} :
    x ∈ (t.filter p).rows ↔ x ∈ t.rows ∧ p x = true :=
  List.mem_filter

/-- The rows after one was modified. -/
theorem mem_modify {t : Table ρ} {id : Uuid} {f : ρ → ρ} {x : Loaded ρ} :
    x ∈ (t.modify id f).rows ↔ (x ∈ t.rows ∧ x.id ≠ id) ∨ ∃ y ∈ t.rows, y.id = id ∧ x = ⟨id, f y.row⟩ := by
  unfold modify
  simp only [List.mem_map]
  constructor
  · rintro ⟨y, hy, rfl⟩
    by_cases hid : y.id = id
    · exact .inr ⟨y, hy, hid, by rw [if_pos hid, hid]⟩
    · exact .inl ⟨by rw [if_neg hid]; exact hy, by rwa [if_neg hid]⟩
  · rintro (⟨hx, hid⟩ | ⟨y, hy, rfl, rfl⟩)
    · exact ⟨x, hx, if_neg hid⟩
    · exact ⟨y, hy, if_pos rfl⟩

/-- An identifier has one row. -/
theorem eq_of_id_eq (t : Table ρ) {x y : Loaded ρ} (hx : x ∈ t.rows) (hy : y ∈ t.rows)
    (h : x.id = y.id) : x = y :=
  List.inj_on_of_nodup_map t.nodup hx hy h

/-- A row is found by its identifier. -/
theorem find?_of_mem {t : Table ρ} {x : Loaded ρ} (hx : x ∈ t.rows) : t.find? x.id = some x := by
  rcases hfind : t.find? x.id with _ | y
  · exact absurd (List.find?_eq_none.mp hfind x hx) (by simp)
  · obtain ⟨hy, hid⟩ := find?_some hfind
    rw [t.eq_of_id_eq hy hx hid]

end Table

/-- The tables of projects, documents and sources. A project is its identifier; a link is a document
and a source that is attached to it. -/
structure Tables where
  projects : List Uuid
  documents : Table Document
  sources : Table Source
  links : List (Uuid × Uuid)

namespace Tables

/-- Only projects. -/
def ofProjects (projects : List Uuid) : Tables := ⟨projects, .empty, .empty, []⟩

/-- The source is one of the document's own: scope `document`, and attached to it. -/
def ownSource (t : Tables) (documentId : Uuid) (x : Loaded Source) : Bool :=
  decide (x.row.scope = .document) && decide ((documentId, x.id) ∈ t.links)

/-- Delete documents; `ON DELETE CASCADE` of `document_sources.document_id`. -/
def deleteDocuments (t : Tables) (p : Loaded Document → Bool) : Tables :=
  { t with
    documents := t.documents.filter fun d => !p d
    links := t.links.filter fun link => !t.documents.rows.any fun d => p d && d.id = link.1 }

/-- Delete sources; `ON DELETE CASCADE` of `document_sources.source_id`. -/
def deleteSources (t : Tables) (p : Loaded Source → Bool) : Tables :=
  { t with
    sources := t.sources.filter fun x => !p x
    links := t.links.filter fun link => !t.sources.rows.any fun x => p x && x.id = link.2 }

end Tables

/-- What a transaction asks of the tables. -/
abbrev FileQuery : Type → Type := TwoStores.Query Tables DomainError

/-- A program over the tables and the file storage. -/
abbrev FileSession : Type → Type := TwoStores.Prog Tables String DomainError

namespace Files

open TwoStores.Query (get modify)

def raise {α : Type} (e : DomainError) : FileQuery α := .throw e

/-! ## Documents -/

namespace DocumentRepository

/-- Source: `DocumentRepository.get_by_id`. -/
def getById (documentId : Uuid) : FileQuery (Option (Loaded Document)) := do
  let t ← get
  pure (t.documents.find? documentId)

/-- Source: `DocumentRepository.get_many_by_ids`. -/
def getManyByIds (documentIds : List Uuid) : FileQuery (List (Loaded Document)) := do
  let t ← get
  pure (t.documents.rows.filter fun d => d.id ∈ documentIds)

/-- Source: `DocumentRepository.create`. -/
def create (id projectId : Uuid) (name : String) (format : DocumentFormat) (storageKey : String)
    (sizeBytes : ℕ) : FileQuery (Loaded Document) := do
  let t ← get
  let row : Document := { projectId, name, format, storageKey, sizeBytes }
  if projectId ∈ t.projects then
    match t.documents.insert id row with
    | some documents => do
        modify fun t => { t with documents }
        pure ⟨id, row⟩
    | none => raise .integrityError
  else raise .integrityError

/-- Source: `DocumentRepository.update_exported_key`. -/
def updateExportedKey (document : Loaded Document) (exportKey : String) : FileQuery Unit :=
  modify fun t =>
    { t with documents := t.documents.modify document.id (Document.withExportedKey exportKey) }

/-- The subquery reads the links first.
Source: `DocumentRepository.delete_document_scoped_sources`. -/
def deleteDocumentScopedSources (documentId : Uuid) : FileQuery ℕ := do
  let t ← get
  modify fun _ => t.deleteSources (t.ownSource documentId)
  pure (t.sources.rows.countP (t.ownSource documentId))

/-- The sources that belong to the document alone are deleted with it. -/
theorem run_deleteDocumentScopedSources (documentId : Uuid) (t : Tables) :
    (deleteDocumentScopedSources documentId).run t =
      (.ok (t.sources.rows.countP (t.ownSource documentId)),
        t.deleteSources (t.ownSource documentId)) := rfl

/-- Source: `DocumentRepository.delete`. -/
def delete (document : Loaded Document) : FileQuery Unit :=
  modify fun t => t.deleteDocuments fun d => d.id = document.id

/-- The deleted row has the keys of the document's files. Source: `DocumentRepository.delete_by_id`. -/
def deleteById (documentId projectId : Uuid) : FileQuery (Option Document) := do
  let t ← get
  let deleted := fun d : Loaded Document =>
    decide (d.id = documentId) && decide (d.row.projectId = projectId)
  modify fun t => t.deleteDocuments deleted
  pure ((t.documents.rows.find? deleted).map Loaded.row)

/-- The document is deleted, and its row is the answer. -/
theorem run_deleteById (documentId projectId : Uuid) (t : Tables) :
    (deleteById documentId projectId).run t =
      (.ok ((t.documents.rows.find? fun d =>
          decide (d.id = documentId) && decide (d.row.projectId = projectId)).map Loaded.row),
        t.deleteDocuments fun d =>
          decide (d.id = documentId) && decide (d.row.projectId = projectId)) := rfl

/-- Reading a document, then the rest. -/
theorem run_getById_bind {α : Type} (documentId : Uuid)
    (rest : Option (Loaded Document) → FileQuery α) (t : Tables) :
    (getById documentId >>= rest).run t = (rest (t.documents.find? documentId)).run t := rfl

end DocumentRepository

/-! ## Sources -/

namespace SourceRepository

/-- Source: `SourceRepository.get_by_id`. -/
def getById (sourceId : Uuid) : FileQuery (Option (Loaded Source)) := do
  let t ← get
  pure (t.sources.find? sourceId)

/-- Reading a source, then the rest. -/
theorem run_getById_bind {α : Type} (sourceId : Uuid)
    (rest : Option (Loaded Source) → FileQuery α) (t : Tables) :
    (getById sourceId >>= rest).run t = (rest (t.sources.find? sourceId)).run t := rfl

/-- Source: `SourceRepository.list_attached_document_ids`. -/
def listAttachedDocumentIds (sourceId : Uuid) : FileQuery (List Uuid) := do
  let t ← get
  pure (t.links.filterMap fun link => if link.2 = sourceId then some link.1 else none)

/-- Source: `SourceRepository.attach_to_document`. -/
def attachToDocument (sourceId documentId : Uuid) : FileQuery Unit := do
  let t ← get
  if (documentId, sourceId) ∈ t.links then pure ()
  else if (t.documents.find? documentId).isSome && (t.sources.find? sourceId).isSome then
    modify fun t => { t with links := (documentId, sourceId) :: t.links }
  else raise .integrityError

/-- Add the row of a new source. -/
def add (id : Uuid) (row : Source) : FileQuery (Loaded Source) := do
  let t ← get
  if row.projectId ∈ t.projects then
    match t.sources.insert id row with
    | some sources => do
        modify fun t => { t with sources }
        pure ⟨id, row⟩
    | none => raise .integrityError
  else raise .integrityError

/-- Source: `SourceRepository.create_with_id`. -/
def createWithId (sourceId projectId : Uuid) (name : String) (type : SourceType)
    (storageKey : String) (scope : SourceScope) : FileQuery (Loaded Source) :=
  add sourceId { projectId, name, type, storageKey := some storageKey, scope }

/-- `sourceId` is what `uuid.uuid4()` draws. Source: `SourceRepository.create_url`. -/
def createUrl (sourceId projectId : Uuid) (name url : String) (scope : SourceScope) :
    FileQuery (Loaded Source) :=
  add sourceId { projectId, name, type := .url, url := some url, scope }

/-- Source: `SourceRepository.delete`. -/
def delete (source : Loaded Source) : FileQuery Unit :=
  modify fun t => t.deleteSources fun x => x.id = source.id

end SourceRepository

/-! ## Projects -/

namespace ProjectRepository

/-- Source: `ProjectRepository.create`. -/
def create (projectId : Uuid) : FileQuery Unit :=
  modify fun t => { t with projects := projectId :: t.projects }

/-- Source: `ProjectRepository.collect_storage_keys`. -/
def collectStorageKeys (projectId : Uuid) : FileQuery (List String) := do
  let t ← get
  let ofDocuments := (t.documents.rows.filter fun d => d.row.projectId = projectId).flatMap
    fun d => [some d.row.storageKey, d.row.originalStorageKey, d.row.exportedStorageKey].filterMap id
  let ofSources := (t.sources.rows.filter fun x => x.row.projectId = projectId).filterMap
    fun x => x.row.storageKey
  pure (((ofDocuments ++ ofSources).filter (· ≠ "")).eraseDups)

/-- `ON DELETE CASCADE` of the documents and sources of the project.
Source: `ProjectRepository.delete`. -/
def delete (projectId : Uuid) : FileQuery Unit :=
  modify fun t =>
    let t := t.deleteDocuments fun d => d.row.projectId = projectId
    let t := t.deleteSources fun x => x.row.projectId = projectId
    { t with projects := t.projects.filter (· ≠ projectId) }

end ProjectRepository

end Files

end SyncBack
