import SyncBack.Services.StoredFiles

/-!
# A committed row never names a missing file

Every operation that stores a file stores it before the row that names it is committed, and every
operation that removes a file commits the removal of the row before. `Keyed` carries the argument:
the keys of a row begin with the folder and the identifier of the row, so that a file is never named
by a row other than its own, and neither the compensation of an upload nor the removal of a row's
files touches what another row names.

`operation_safe` walks through the program of each operation, with a failure or a stop at any call;
`stored_files_exist` follows for every sequence of operations.
-/

namespace SyncBack.Files

open TwoStores
open TwoStores.Prog (call transaction deleting compensate undoing)

/-! ## What the tables name -/

/-- The files of a document. -/
def Names (row : Document) (key : String) : Prop :=
  row.storageKey = key ∨ row.originalStorageKey = some key ∨ row.exportedStorageKey = some key

/-- The keys in the columns of documents and sources. -/
def refs (t : Tables) : Set String :=
  {key | (∃ d ∈ t.documents.rows, Names d.row key) ∨
    ∃ x ∈ t.sources.rows, x.row.storageKey = some key}

/-- The keys of a row are its own. -/
structure Keyed (t : Tables) : Prop where
  documents : ∀ d ∈ t.documents.rows, ∀ key, Names d.row key → KeyOf "documents" d.id key
  sources : ∀ x ∈ t.sources.rows, ∀ key, x.row.storageKey = some key → KeyOf "sources" x.id key
  exported : ∀ d ∈ t.documents.rows, ∀ key, d.row.exportedStorageKey = some key →
    key = d.row.storageKey ++ ".exported"

/-- Empty tables name nothing. -/
theorem keyed_ofProjects (projects : List Uuid) : Keyed (.ofProjects projects) :=
  ⟨fun _ hd => absurd hd List.not_mem_nil, fun _ hx => absurd hx List.not_mem_nil,
    fun _ hd => absurd hd List.not_mem_nil⟩

/-- A key of a document tells the document. -/
theorem document_id_unique {id id' : Uuid} {key : String} (h : KeyOf "documents" id key)
    (h' : KeyOf "documents" id' key) : id = id' :=
  (keyOf_unique (by decide) (by decide) h h').2

/-- A key of a source tells the source. -/
theorem source_id_unique {id id' : Uuid} {key : String} (h : KeyOf "sources" id key)
    (h' : KeyOf "sources" id' key) : id = id' :=
  (keyOf_unique (by decide) (by decide) h h').2

/-- No key belongs to a document and to a source. -/
theorem not_document_and_source {id id' : Uuid} {key : String} (h : KeyOf "documents" id key)
    (h' : KeyOf "sources" id' key) : False :=
  absurd (keyOf_unique (by decide) (by decide) h h').1 (by decide)

/-- `_document_storage_keys` gives the named keys that are not empty. -/
theorem mem_storageKeys {row : Document} {key : String} :
    key ∈ SyncBack.DocumentService.storageKeys row ↔ Names row key ∧ key ≠ "" := by
  unfold SyncBack.DocumentService.storageKeys Names
  simp only [List.mem_eraseDups, List.mem_filter, List.mem_filterMap, decide_eq_true_eq, id_eq,
    exists_eq_right, List.mem_cons, List.not_mem_nil, or_false, Option.some.injEq]
  tauto

namespace Keyed

variable {t : Tables}

/-- The key of a document that is not there is named by no row. -/
theorem notMem_of_document (ht : Keyed t) {id : Uuid} {key : String}
    (hkey : KeyOf "documents" id key) (hid : ∀ d ∈ t.documents.rows, d.id ≠ id) : key ∉ refs t := by
  rintro (⟨d, hd, hname⟩ | ⟨x, hx, hname⟩)
  · exact hid d hd (document_id_unique (ht.documents d hd key hname) hkey)
  · exact not_document_and_source hkey (ht.sources x hx key hname)

/-- The key of a source that is not there is named by no row. -/
theorem notMem_of_source (ht : Keyed t) {id : Uuid} {key : String}
    (hkey : KeyOf "sources" id key) (hid : ∀ x ∈ t.sources.rows, x.id ≠ id) : key ∉ refs t := by
  rintro (⟨d, hd, hname⟩ | ⟨x, hx, hname⟩)
  · exact not_document_and_source (ht.documents d hd key hname) hkey
  · exact hid x hx (source_id_unique (ht.sources x hx key hname) hkey)

end Keyed

/-! ## Changes of the tables -/

/-- What a document says about files. -/
def fileColumns (d : Loaded Document) : Uuid × String × Option String × Option String :=
  (d.id, d.row.storageKey, d.row.originalStorageKey, d.row.exportedStorageKey)

/-- The documents say the same about files, and the sources are the same. -/
def SameFiles (t t' : Tables) : Prop :=
  t'.documents.rows.map fileColumns = t.documents.rows.map fileColumns ∧ t'.sources = t.sources

namespace SameFiles

variable {t t₁ t' : Tables}

/-- Tables say about files what they say. -/
theorem refl (t : Tables) : SameFiles t t := ⟨rfl, rfl⟩

/-- Saying the same about files is symmetric. -/
theorem symm (h : SameFiles t t') : SameFiles t' t := ⟨h.1.symm, h.2.symm⟩

/-- A document of the one has its counterpart in the other. -/
theorem exists_row (h : SameFiles t t') {d : Loaded Document} (hd : d ∈ t'.documents.rows) :
    ∃ y ∈ t.documents.rows, y.id = d.id ∧ y.row.storageKey = d.row.storageKey ∧
      y.row.originalStorageKey = d.row.originalStorageKey ∧
      y.row.exportedStorageKey = d.row.exportedStorageKey := by
  obtain ⟨y, hy, heq⟩ := List.mem_map.mp (h.1 ▸ List.mem_map_of_mem (f := fileColumns) hd)
  simp only [fileColumns, Prod.mk.injEq] at heq
  exact ⟨y, hy, heq⟩

/-- What the changed tables name was named before. -/
theorem refs_subset (h : SameFiles t t') : refs t' ⊆ refs t := by
  rintro key (⟨d, hd, hname⟩ | ⟨x, hx, hname⟩)
  · obtain ⟨y, hy, -, hkey, horiginal, hexported⟩ := h.exists_row hd
    refine .inl ⟨y, hy, ?_⟩
    rw [Names, hkey, horiginal, hexported]
    exact hname
  · exact .inr ⟨x, h.2 ▸ hx, hname⟩

/-- The same is named. -/
theorem refs_eq (h : SameFiles t t') : refs t' = refs t :=
  h.refs_subset.antisymm h.symm.refs_subset

/-- Keys stay with their rows. -/
theorem keyed (h : SameFiles t t') (ht : Keyed t) : Keyed t' := by
  refine ⟨fun d hd key hname => ?_, h.2 ▸ ht.sources, fun d hd key hname => ?_⟩
  · obtain ⟨y, hy, hid, hkey, horiginal, hexported⟩ := h.exists_row hd
    rw [Names, ← hkey, ← horiginal, ← hexported] at hname
    exact hid ▸ ht.documents y hy key hname
  · obtain ⟨y, hy, hid, hkey, horiginal, hexported⟩ := h.exists_row hd
    exact hkey ▸ ht.exported y hy key (hexported.trans hname)

/-- A change of status says nothing about files. -/
theorem modify_status (t : Tables) (documentId : Uuid) (status : DocumentStatus) :
    SameFiles t
      { t with documents := t.documents.modify documentId fun row => { row with status } } := by
  refine ⟨?_, rfl⟩
  simp only [Table.modify, List.map_map]
  refine List.map_congr_left fun d _ => ?_
  simp only [Function.comp_apply]
  split <;> rfl

end SameFiles

/-- The rows of documents and sources are the same. -/
def SameRows (t t' : Tables) : Prop := t'.documents = t.documents ∧ t'.sources = t.sources

/-- Unchanged tables. -/
theorem SameRows.refl (t : Tables) : SameRows t t := ⟨rfl, rfl⟩

/-- One change without rows after another. -/
theorem SameRows.trans {t t₁ t' : Tables} (h : SameRows t t₁) (h' : SameRows t₁ t') :
    SameRows t t' :=
  ⟨h'.1.trans h.1, h'.2.trans h.2⟩

/-- The same rows say the same about files. -/
theorem SameRows.sameFiles {t t' : Tables} (h : SameRows t t') : SameFiles t t' :=
  ⟨congrArg (fun d => d.rows.map fileColumns) h.1, h.2⟩

/-- A document is added, named by one key of its own. -/
structure AddsDocument (t t' : Tables) (key : String) : Prop where
  exists_row : ∃ d : Loaded Document, t'.documents.rows = d :: t.documents.rows ∧
    d.row.storageKey = key ∧ d.row.originalStorageKey = none ∧ d.row.exportedStorageKey = none ∧
    KeyOf "documents" d.id key
  sources : t'.sources = t.sources

/-- A source is added, named by at most one key of its own. -/
structure AddsSource (t t' : Tables) (storageKey : Option String) : Prop where
  exists_row : ∃ x : Loaded Source, t'.sources.rows = x :: t.sources.rows ∧
    x.row.storageKey = storageKey ∧ ∀ key, storageKey = some key → KeyOf "sources" x.id key
  documents : t'.documents = t.documents

/-- A new document adds its key to what is named. -/
theorem AddsDocument.refs {t t' : Tables} {key : String} (h : AddsDocument t t' key) :
    refs t' = insert key (refs t) := by
  obtain ⟨⟨d, hrows, hkey, horiginal, hexported, -⟩, hsources⟩ := h
  ext k
  simp only [Files.refs, Names, hrows, hsources, List.mem_cons, Set.mem_ofPred_eq,
    Set.mem_insert_iff, exists_eq_or_imp, hkey, horiginal, hexported]
  simp only [reduceCtorEq, or_false, or_assoc, eq_comm]

/-- The key of a new document is its own. -/
theorem AddsDocument.keyed {t t' : Tables} {key : String} (h : AddsDocument t t' key)
    (ht : Keyed t) : Keyed t' := by
  obtain ⟨⟨d, hrows, hkey, horiginal, hexported, hown⟩, hsources⟩ := h
  refine ⟨fun y hy k hname => ?_, hsources ▸ ht.sources, fun y hy k hname => ?_⟩
  · rcases List.mem_cons.mp (hrows ▸ hy) with rfl | hy
    · rcases hname with hname | hname | hname
      · exact hname ▸ hkey ▸ hown
      · exact nomatch horiginal.symm.trans hname
      · exact nomatch hexported.symm.trans hname
    · exact ht.documents y hy k hname
  · rcases List.mem_cons.mp (hrows ▸ hy) with rfl | hy
    · exact nomatch hexported.symm.trans hname
    · exact ht.exported y hy k hname

/-- A new source adds its key, if it has one. -/
theorem AddsSource.refs {t t' : Tables} {storageKey : Option String}
    (h : AddsSource t t' storageKey) : refs t' = {key | storageKey = some key} ∪ refs t := by
  obtain ⟨⟨x, hrows, hkey, -⟩, hdocuments⟩ := h
  ext k
  simp only [Files.refs, hrows, hdocuments, List.mem_cons, Set.mem_ofPred_eq, Set.mem_union,
    exists_eq_or_imp, hkey]
  exact or_left_comm

/-- A new source with a file adds the key of that file. -/
theorem AddsSource.refs_some {t t' : Tables} {key : String} (h : AddsSource t t' (some key)) :
    Files.refs t' = insert key (Files.refs t) := by
  rw [h.refs]
  ext k
  simp [eq_comm]

/-- The key of a new source is its own. -/
theorem AddsSource.keyed {t t' : Tables} {storageKey : Option String}
    (h : AddsSource t t' storageKey) (ht : Keyed t) : Keyed t' := by
  obtain ⟨⟨x, hrows, hkey, hown⟩, hdocuments⟩ := h
  refine ⟨hdocuments ▸ ht.documents, fun y hy k hname => ?_, hdocuments ▸ ht.exported⟩
  rcases List.mem_cons.mp (hrows ▸ hy) with rfl | hy
  · exact hown k (hkey.symm.trans hname)
  · exact ht.sources y hy k hname

/-- Rows are removed, and `keys` are keys of removed rows. -/
structure Removes (t t' : Tables) (keys : List String) : Prop where
  documents : ∀ d ∈ t'.documents.rows, d ∈ t.documents.rows
  sources : ∀ x ∈ t'.sources.rows, x ∈ t.sources.rows
  named : ∀ key ∈ keys,
    (∃ d ∈ t.documents.rows, d ∉ t'.documents.rows ∧ Names d.row key) ∨
      ∃ x ∈ t.sources.rows, x ∉ t'.sources.rows ∧ x.row.storageKey = some key

namespace Removes

variable {t t' : Tables} {keys : List String}

/-- The rows that remain keep their keys. -/
theorem keyed (h : Removes t t' keys) (ht : Keyed t) : Keyed t' :=
  ⟨fun d hd => ht.documents d (h.documents d hd), fun x hx => ht.sources x (h.sources x hx),
    fun d hd => ht.exported d (h.documents d hd)⟩

/-- Nothing new is named. -/
theorem refs_subset (h : Removes t t' keys) : refs t' ⊆ refs t := by
  rintro key (⟨d, hd, hname⟩ | ⟨x, hx, hname⟩)
  · exact .inl ⟨d, h.documents d hd, hname⟩
  · exact .inr ⟨x, h.sources x hx, hname⟩

/-- No remaining row names a file of a removed document. -/
theorem notMem_document (h : Removes t t' keys) (ht : Keyed t) {d : Loaded Document}
    (hd : d ∈ t.documents.rows) (hgone : d ∉ t'.documents.rows) {key : String}
    (hname : Names d.row key) : key ∉ refs t' := by
  refine (h.keyed ht).notMem_of_document (ht.documents d hd key hname) fun y hy hid => hgone ?_
  exact t.documents.eq_of_id_eq (h.documents y hy) hd hid ▸ hy

/-- No remaining row names the file of a removed source. -/
theorem notMem_source (h : Removes t t' keys) (ht : Keyed t) {x : Loaded Source}
    (hx : x ∈ t.sources.rows) (hgone : x ∉ t'.sources.rows) {key : String}
    (hname : x.row.storageKey = some key) : key ∉ refs t' := by
  refine (h.keyed ht).notMem_of_source (ht.sources x hx key hname) fun y hy hid => hgone ?_
  exact t.sources.eq_of_id_eq (h.sources y hy) hx hid ▸ hy

/-- The files of removed rows are named no more. -/
theorem notMem (h : Removes t t' keys) (ht : Keyed t) : ∀ key ∈ keys, key ∉ refs t' := by
  intro key hkey
  rcases h.named key hkey with ⟨d, hd, hgone, hname⟩ | ⟨x, hx, hgone, hname⟩
  · exact h.notMem_document ht hd hgone hname
  · exact h.notMem_source ht hx hgone hname

end Removes

section

variable {t : Tables} {document : Loaded Document}

/-- The tables after `update_exported_key`. -/
def withExported (t : Tables) (document : Loaded Document) (exportKey : String) : Tables :=
  { t with documents := t.documents.modify document.id (Document.withExportedKey exportKey) }

/-- The exported key belongs to its document. -/
theorem keyed_withExported (ht : Keyed t) (hd : document ∈ t.documents.rows) :
    Keyed (withExported t document (document.row.storageKey ++ ".exported")) := by
  refine ⟨fun y hy key hname => ?_, ht.sources, fun y hy key hname => ?_⟩
  · rcases Table.mem_modify.mp hy with ⟨hy, -⟩ | ⟨d, hmem, hid, rfl⟩
    · exact ht.documents y hy key hname
    · obtain rfl := Table.eq_of_id_eq _ hmem hd hid
      rcases hname with hname | hname | hname
      · exact ht.documents d hd key (.inl hname)
      · exact ht.documents d hd key (.inr (.inl hname))
      · exact Option.some.inj hname ▸ (ht.documents d hd _ (.inl rfl)).exported
  · rcases Table.mem_modify.mp hy with ⟨hy, -⟩ | ⟨d, hmem, hid, rfl⟩
    · exact ht.exported y hy key hname
    · obtain rfl := Table.eq_of_id_eq _ hmem hd hid
      exact (Option.some.inj hname).symm

/-- It is added to what is named. -/
theorem refs_withExported (ht : Keyed t) (hd : document ∈ t.documents.rows) :
    refs (withExported t document (document.row.storageKey ++ ".exported")) =
      insert (document.row.storageKey ++ ".exported") (refs t) := by
  ext key
  constructor
  · rintro (⟨y, hy, hname⟩ | hsource)
    · rcases Table.mem_modify.mp hy with ⟨hy, -⟩ | ⟨d, hmem, hid, rfl⟩
      · exact .inr (.inl ⟨y, hy, hname⟩)
      · obtain rfl := Table.eq_of_id_eq _ hmem hd hid
        rcases hname with hname | hname | hname
        · exact .inr (.inl ⟨d, hd, .inl hname⟩)
        · exact .inr (.inl ⟨d, hd, .inr (.inl hname)⟩)
        · exact .inl (Option.some.inj hname).symm
    · exact .inr (.inr hsource)
  · rintro (rfl | ⟨y, hy, hname⟩ | hsource)
    · exact .inl ⟨_, Table.mem_modify.mpr (.inr ⟨document, hd, rfl, rfl⟩), .inr (.inr rfl)⟩
    · by_cases hid : y.id = document.id
      · obtain rfl := Table.eq_of_id_eq _ hy hd hid
        refine .inl ⟨_, Table.mem_modify.mpr (.inr ⟨y, hd, rfl, rfl⟩), ?_⟩
        rcases hname with hname | hname | hname
        · exact .inl hname
        · exact .inr (.inl hname)
        · exact .inr (.inr (congrArg some (ht.exported y hd key hname).symm))
      · exact .inl ⟨y, Table.mem_modify.mpr (.inl ⟨hy, hid⟩), hname⟩
    · exact .inr hsource

end

/-! ## What the queries change -/

/-- A document that was found is a row of its project, and reading changes nothing. -/
theorem getDocumentOrRaise_ok {projectId documentId : Uuid} {t t' : Tables}
    {document : Loaded Document}
    (h : (getDocumentOrRaise projectId documentId).run t = (.ok document, t')) :
    t' = t ∧ document ∈ t.documents.rows ∧ document.id = documentId ∧
      document.row.projectId = projectId ∧ t.documents.find? documentId = some document := by
  rw [getDocumentOrRaise, DocumentRepository.run_getById_bind] at h
  split at h
  · rename_i d hfind
    split at h
    · rename_i hproject
      cases h
      obtain ⟨hmem, hid⟩ := Table.find?_some hfind
      exact ⟨rfl, hmem, hid, hproject, hfind⟩
    · cases h
  · cases h

/-- The check of the document's status changes nothing. -/
theorem assertSourcesMutable_ok {document : Loaded Document} {t t' : Tables}
    (h : (SourceService.assertSourcesMutable document).run t = (.ok (), t')) : t' = t := by
  unfold SourceService.assertSourcesMutable at h
  split at h <;> cases h
  rfl

/-- Finding the document of a new source changes nothing. -/
theorem targetDocument_ok {projectId : Uuid} {scope : SourceScope} {documentId : Option Uuid}
    {t t' : Tables} {document : Option (Loaded Document)}
    (h : (SourceService.targetDocument projectId scope documentId).run t = (.ok document, t')) :
    t' = t := by
  unfold SourceService.targetDocument at h
  split at h
  · cases h
    rfl
  · cases h
  · obtain ⟨d, t₁, hget, h⟩ := Query.run_bind_ok h
    obtain ⟨_, t₂, hassert, h⟩ := Query.run_bind_ok h
    cases h
    rw [assertSourcesMutable_ok hassert, (getDocumentOrRaise_ok hget).1]

/-- Attaching a source changes no row of documents or sources. -/
theorem attachToDocument_ok {sourceId documentId : Uuid} {t t' : Tables}
    (h : (SourceRepository.attachToDocument sourceId documentId).run t = (.ok (), t')) :
    SameRows t t' := by
  change (if _ then _ else if _ then _ else _ : FileQuery Unit).run t = _ at h
  split at h
  · cases h
    exact .refl t
  · split at h <;> cases h
    exact ⟨rfl, rfl⟩

/-- So does attaching it to the document that was found, if there is one. -/
theorem attachTo_ok {source : Loaded Source} {document : Option (Loaded Document)} {t t' : Tables}
    (h : (SourceService.attachTo source document).run t = (.ok (), t')) : SameRows t t' := by
  cases document with
  | none =>
    cases h
    exact .refl t
  | some document => exact attachToDocument_ok h

/-- Attaching sources one after another changes no such row either. -/
theorem attachSources_ok {projectId documentId : Uuid} {sources : List Uuid} {t t' : Tables}
    (h : (do
      let document ← getDocumentOrRaise projectId documentId
      let _ ← SourceService.assertSourcesMutable document
      Query.each sources fun sourceId => SourceRepository.attachToDocument sourceId document.id :
      FileQuery Unit).run t = (.ok (), t')) : SameRows t t' := by
  obtain ⟨d, t₁, hget, h⟩ := Query.run_bind_ok h
  obtain ⟨_, t₂, hassert, h⟩ := Query.run_bind_ok h
  rw [assertSourcesMutable_ok hassert, (getDocumentOrRaise_ok hget).1] at h
  exact Query.rel_of_each SameRows.refl SameRows.trans attachToDocument_ok h

/-- Creating a document adds it, under a key of its own. -/
theorem createDocument_ok {id projectId : Uuid} {name : String} {format : DocumentFormat}
    {storageKey : String} {sizeBytes : ℕ} {t t' : Tables} {document : Loaded Document}
    (hkey : KeyOf "documents" id storageKey)
    (h : (DocumentRepository.create id projectId name format storageKey sizeBytes).run t =
      (.ok document, t')) : AddsDocument t t' storageKey := by
  rw [DocumentRepository.create, Query.run_get_bind] at h
  dsimp only at h
  split at h
  · split at h
    · rename_i documents hinsert
      cases h
      exact ⟨⟨_, (Table.insert_some hinsert).1, rfl, rfl, rfl, hkey⟩, rfl⟩
    · cases h
  · cases h

/-- Creating a source adds it, under a key of its own. -/
theorem addSource_ok {id : Uuid} {row : Source} {t t' : Tables} {source : Loaded Source}
    (hkey : ∀ key, row.storageKey = some key → KeyOf "sources" id key)
    (h : (SourceRepository.add id row).run t = (.ok source, t')) :
    AddsSource t t' row.storageKey := by
  rw [SourceRepository.add, Query.run_get_bind] at h
  split at h
  · split at h
    · rename_i sources hinsert
      cases h
      exact ⟨⟨_, (Table.insert_some hinsert).1, rfl, hkey⟩, rfl⟩
    · cases h
  · cases h

/-- A source is added when it is created and attached. -/
theorem AddsSource.sameRows {t t₁ t' : Tables} {storageKey : Option String}
    (h : AddsSource t t₁ storageKey) (h' : SameRows t₁ t') : AddsSource t t' storageKey :=
  ⟨h'.2 ▸ h.exists_row, h'.1.trans h.documents⟩

/-- The rows of a stored source add it with the key of its file. -/
theorem createRows_ok {sourceId projectId : Uuid} {name storageKey : String} {scope : SourceScope}
    {document : Option (Loaded Document)} {t t' : Tables} {source : Loaded Source}
    (hkey : KeyOf "sources" sourceId storageKey)
    (h : (SourceService.createRows sourceId projectId name storageKey scope document).run t =
      (.ok source, t')) : AddsSource t t' (some storageKey) := by
  obtain ⟨x, t₁, hadd, h⟩ := Query.run_bind_ok h
  obtain ⟨_, t₂, hattach, h⟩ := Query.run_bind_ok h
  cases h
  refine (addSource_ok (fun key hk => ?_) hadd).sameRows (attachTo_ok hattach)
  exact Option.some.inj hk ▸ hkey

/-- The rows of a URL source add it without a key. -/
theorem createUrl_ok {sourceId projectId : Uuid} {name url : String} {scope : SourceScope}
    {documentId : Option Uuid} {t t' : Tables} {source : Loaded Source}
    (h : (do
      let document ← SourceService.targetDocument projectId scope documentId
      let source ← SourceRepository.createUrl sourceId projectId name url scope
      let _ ← SourceService.attachTo source document
      pure source : FileQuery (Loaded Source)).run t = (.ok source, t')) :
    AddsSource t t' none := by
  obtain ⟨document, t₁, htarget, h⟩ := Query.run_bind_ok h
  obtain ⟨x, t₂, hadd, h⟩ := Query.run_bind_ok h
  obtain ⟨_, t₃, hattach, h⟩ := Query.run_bind_ok h
  cases h
  rw [targetDocument_ok htarget] at hadd
  exact (addSource_ok (fun key hk => absurd hk (by simp)) hadd).sameRows (attachTo_ok hattach)

/-! ## What the deletions remove -/

/-- A document is removed with its own sources; `keys` are those of the document. -/
structure RemovesDocument (t t' : Tables) (d : Loaded Document) (keys : List String) : Prop where
  mem : d ∈ t.documents.rows
  keys_eq : keys = SyncBack.DocumentService.storageKeys d.row
  documents : ∀ y, y ∈ t'.documents.rows ↔ y ∈ t.documents.rows ∧ y ≠ d
  sources : ∀ x, x ∈ t'.sources.rows ↔ x ∈ t.sources.rows ∧ t.ownSource d.id x = false

/-- A source is removed; `keys` has its file. -/
structure RemovesSource (t t' : Tables) (x : Loaded Source) (keys : List String) : Prop where
  mem : x ∈ t.sources.rows
  keys_eq : keys = x.row.storageKey.toList.filter (· ≠ "")
  documents : t'.documents = t.documents
  sources : ∀ y, y ∈ t'.sources.rows ↔ y ∈ t.sources.rows ∧ y ≠ x

/-- A project is removed; `keys` are those of its documents and sources. -/
structure RemovesProject (t t' : Tables) (projectId : Uuid) (keys : List String) : Prop where
  mem_keys : ∀ key, key ∈ keys ↔ key ≠ "" ∧
    ((∃ d ∈ t.documents.rows, d.row.projectId = projectId ∧ Names d.row key) ∨
      ∃ x ∈ t.sources.rows, x.row.projectId = projectId ∧ x.row.storageKey = some key)
  documents : ∀ d, d ∈ t'.documents.rows ↔ d ∈ t.documents.rows ∧ d.row.projectId ≠ projectId
  sources : ∀ x, x ∈ t'.sources.rows ↔ x ∈ t.sources.rows ∧ x.row.projectId ≠ projectId

section

variable {t t' : Tables} {keys : List String}

/-- Removing a document removes rows, and its keys are theirs. -/
theorem RemovesDocument.removes {d : Loaded Document} (h : RemovesDocument t t' d keys) :
    Removes t t' keys where
  documents y hy := ((h.documents y).mp hy).1
  sources x hx := ((h.sources x).mp hx).1
  named key hkey := by
    rw [h.keys_eq, mem_storageKeys] at hkey
    exact .inl ⟨d, h.mem, fun hd => ((h.documents d).mp hd).2 rfl, hkey.1⟩

/-- Removing a source removes a row, and its key is that row's. -/
theorem RemovesSource.removes {x : Loaded Source} (h : RemovesSource t t' x keys) :
    Removes t t' keys where
  documents y hy := h.documents ▸ hy
  sources y hy := ((h.sources y).mp hy).1
  named key hkey := by
    rw [h.keys_eq, List.mem_filter, Option.mem_toList] at hkey
    exact .inr ⟨x, h.mem, fun hx => ((h.sources x).mp hx).2 rfl, hkey.1⟩

/-- Removing a project removes rows, and its keys are theirs. -/
theorem RemovesProject.removes {projectId : Uuid} (h : RemovesProject t t' projectId keys) :
    Removes t t' keys where
  documents d hd := ((h.documents d).mp hd).1
  sources x hx := ((h.sources x).mp hx).1
  named key hkey := by
    rcases ((h.mem_keys key).mp hkey).2 with ⟨d, hd, hproject, hname⟩ | ⟨x, hx, hproject, hname⟩
    · exact .inl ⟨d, hd, fun hd' => ((h.documents d).mp hd').2 hproject, hname⟩
    · exact .inr ⟨x, hx, fun hx' => ((h.sources x).mp hx').2 hproject, hname⟩

/-- `delete_document` removes the document that it was given. -/
theorem deleteDocumentRows_ok {projectId documentId : Uuid}
    (h : (DocumentService.deleteRows projectId documentId).run t = (.ok keys, t')) :
    ∃ d, RemovesDocument t t' d keys ∧ d.id = documentId ∧ d.row.projectId = projectId := by
  obtain ⟨d, t₁, hget, hrun⟩ := Query.run_bind_ok h
  obtain ⟨rfl, hmem, rfl, hproject, -⟩ := getDocumentOrRaise_ok hget
  cases hrun
  refine ⟨d, ⟨hmem, rfl, fun y => ?_, fun x => ?_⟩, rfl, hproject⟩
  · simp only [Tables.deleteDocuments, Tables.deleteSources, Table.mem_filter, Bool.not_eq_true',
      decide_eq_false_iff_not, and_congr_right_iff]
    exact fun hy => not_congr ⟨fun hid => Table.eq_of_id_eq _ hy hmem hid, fun hd => hd ▸ rfl⟩
  · simp only [Tables.deleteDocuments, Tables.deleteSources, Table.mem_filter, Bool.not_eq_true']

/-- `delete_document_by_id` removes a document that may be deleted. -/
theorem deleteDocumentRowsById_ok {projectId documentId : Uuid}
    (h : (DocumentService.deleteRowsById projectId documentId).run t = (.ok keys, t')) :
    ∃ d, RemovesDocument t t' d keys ∧ d.id = documentId ∧ d.row.projectId = projectId ∧
      DocumentLifecycle.canDelete d.row.status = true := by
  obtain ⟨d, t₁, hget, hrun⟩ := Query.run_bind_ok h
  obtain ⟨rfl, hmem, rfl, hproject, -⟩ := getDocumentOrRaise_ok hget
  split at hrun
  · rename_i hdelete
    obtain ⟨deleted, t₂, hdeleted, hrun⟩ := Query.run_bind_ok hrun
    obtain ⟨row, t₃, hrow, hrun⟩ := Query.run_bind_ok hrun
    cases hdeleted
    cases hrow
    split at hrun
    · cases hrun
    · rename_i row hfind
      cases hrun
      obtain ⟨y, hy, rfl⟩ := Option.map_eq_some_iff.mp hfind
      have hmem' : y ∈ t₁.documents.rows := List.mem_of_find?_eq_some hy
      have hid : y.id = d.id ∧ y.row.projectId = projectId := by simpa using List.find?_some hy
      obtain rfl := Table.eq_of_id_eq _ hmem' hmem hid.1
      refine ⟨y, ⟨hmem, rfl, fun z => ?_, fun x => ?_⟩, rfl, hproject, hdelete⟩
      · simp only [Tables.deleteDocuments, Tables.deleteSources, Table.mem_filter,
          Bool.not_eq_true', Bool.and_eq_false_iff, decide_eq_false_iff_not, and_congr_right_iff]
        intro hz
        constructor
        · rintro (hne | hne) rfl
          · exact hne rfl
          · exact hne hproject
        · exact fun hne => .inl fun hid => hne (Table.eq_of_id_eq _ hz hmem hid)
      · simp only [Tables.deleteDocuments, Tables.deleteSources, Table.mem_filter,
          Bool.not_eq_true']
  · cases hrun

/-- `delete_source` removes a source. -/
theorem deleteSourceRow_ok {projectId sourceId : Uuid}
    (h : (SourceService.deleteRow projectId sourceId).run t = (.ok keys, t')) :
    ∃ x, RemovesSource t t' x keys := by
  rw [SourceService.deleteRow, SourceRepository.run_getById_bind] at h
  split at h
  · cases h
  · rename_i x hfind
    obtain ⟨hmem, hid⟩ := Table.find?_some hfind
    split at h
    · obtain ⟨ids, t₁, hids, h⟩ := Query.run_bind_ok h
      obtain ⟨documents, t₂, hdocuments, h⟩ := Query.run_bind_ok h
      obtain ⟨_, t₃, hassert, h⟩ := Query.run_bind_ok h
      obtain ⟨_, t₄, hdelete, h⟩ := Query.run_bind_ok h
      cases hids
      cases hdocuments
      obtain rfl := Query.rel_of_each (R := fun t₁ t₂ => t₂ = t₁) (fun _ => rfl)
        (fun h₁ h₂ => h₂.trans h₁) assertSourcesMutable_ok hassert
      cases hdelete
      cases h
      refine ⟨x, hmem, rfl, rfl, fun y => ?_⟩
      simp only [Tables.deleteSources, Table.mem_filter, Bool.not_eq_true',
        decide_eq_false_iff_not, and_congr_right_iff]
      exact fun hy => not_congr ⟨fun hid => Table.eq_of_id_eq _ hy hmem hid, fun hd => hd ▸ rfl⟩
    · cases h

/-- `delete_project` removes a project. -/
theorem deleteProjectRows_ok {projectId : Uuid}
    (h : (ProjectService.deleteRows projectId).run t = (.ok keys, t')) :
    RemovesProject t t' projectId keys := by
  cases h
  refine ⟨fun key => ?_, fun d => ?_, fun x => ?_⟩
  · simp only [List.mem_eraseDups, List.mem_filter, List.mem_append, List.mem_flatMap,
      List.mem_filterMap, decide_eq_true_eq, id_eq, exists_eq_right, List.mem_cons,
      List.not_mem_nil, or_false, Option.some.injEq, Names]
    grind
  · simp [Tables.deleteDocuments, Tables.deleteSources]
  · simp [Tables.deleteDocuments, Tables.deleteSources]

end

/-! ## The operations, with a failure or a stop at any call -/

/-- Every committed key has its file, and every key belongs to its row. -/
abbrev FilesKept (s : FileStores) : Prop := Sound refs Keyed s

section

variable {s : FileStores}

/-- A transaction of a query that keeps the keys and names only files that are there. -/
theorem safe_rows {α : Type} {q : FileQuery α} (hs : FilesKept s)
    (hq : ∀ a t, q.run s.working = (.ok a, t) → Keyed t ∧ refs t ⊆ s.stored) :
    (transaction .databaseFailure q).Safe FilesKept s fun _ _ => True :=
  (Prog.safe_transaction (A := fun _ _ => True) hs fun a t h =>
    ⟨(hq a t h).1, (hq a t h).2, trivial⟩).mono fun _ _ _ => trivial

/-- A transaction that names the same files is safe. -/
theorem safe_sameFiles {α : Type} {q : FileQuery α} (hs : FilesKept s)
    (hw : s.working = s.committed)
    (hq : ∀ a t, q.run s.working = (.ok a, t) → SameFiles s.working t) :
    (transaction .databaseFailure q).Safe FilesKept s fun _ _ => True := by
  refine safe_rows hs fun a t h => ?_
  have hsame : SameFiles s.committed t := hw ▸ hq a t h
  exact ⟨hsame.keyed hs.wellFormed, hsame.refs_eq ▸ hs.intact⟩

/-- A new key of a document is named by no row. -/
theorem fresh_document (hs : FilesKept s) {id : Uuid} {key : String}
    (hid : id ∉ s.committed.documents.rows.map Loaded.id) (hkey : KeyOf "documents" id key) :
    key ∉ refs s.committed :=
  hs.wellFormed.notMem_of_document hkey fun _ hd heq => hid (List.mem_map.mpr ⟨_, hd, heq⟩)

/-- A new key of a source is named by no row. -/
theorem fresh_source (hs : FilesKept s) {id : Uuid} {key : String}
    (hid : id ∉ s.committed.sources.rows.map Loaded.id) (hkey : KeyOf "sources" id key) :
    key ∉ refs s.committed :=
  hs.wellFormed.notMem_of_source hkey fun _ hx heq => hid (List.mem_map.mpr ⟨_, hx, heq⟩)

/-- The result of an operation is dropped. -/
theorem discard {α : Type} {p : FileSession α} (h : p.Safe FilesKept s fun _ _ => True) :
    (do let _ ← p : FileSession Unit).Safe FilesKept s fun _ _ => True := by
  refine Prog.Safe.bind (A := fun _ _ => True) (E := fun _ _ => True) (fun _ s₁ hs₁ _ => ?_)
    (fun _ _ _ => trivial) (h.mono fun r _ _ => ?_)
  · exact ⟨hs₁, trivial⟩
  · cases r <;> trivial

/-- The key of an uploaded file belongs to the row that is made for it. -/
theorem keyOf_uploaded (lower : Text → Text) (folder : String) (projectId id : Uuid)
    (filename : Text) :
    KeyOf folder id (objectKey folder projectId id (String.ofList (fileExtension lower filename))) :=
  keyOf_objectKey (by rw [String.toList_ofList]; exact extends_fileExtension lower filename)

variable (lower : Text → Text)

/-- An upload is safe: the file is there before the row, and the compensation touches no other. -/
theorem safe_uploadDocument {maxSizeBytes : ℕ} {projectId documentId : Uuid} {filename : Text}
    {size : ℕ} (hs : FilesKept s) (hw : s.working = s.committed)
    (hfresh : documentId ∉ s.committed.documents.rows.map Loaded.id) :
    (DocumentService.uploadDocument lower maxSizeBytes projectId documentId filename size).Safe
      FilesKept s fun _ _ => True := by
  unfold DocumentService.uploadDocument
  split
  · exact ⟨hs, trivial⟩
  split
  · exact ⟨hs, trivial⟩
  have hown := keyOf_uploaded lower "documents" projectId documentId filename
  have hnew := fresh_document hs hfresh hown
  refine Prog.Safe.call hs ?_ fun s₁ hfail => ?_
  · refine Prog.Safe.handle (E := fun _ s₁ => s₁.committed = s.committed)
      (fun e s₁ hs₁ heq => Prog.safe_compensate hs₁ (heq ▸ hnew))
      ((Prog.safe_transaction (A := fun _ _ => True) (hs.put _) fun d t h => ?_).mono fun r s₁ hr => ?_)
    · have hadd : AddsDocument s.committed t _ := hw ▸ createDocument_ok hown h
      refine ⟨hadd.keyed hs.wellFormed, ?_, trivial⟩
      rw [hadd.refs]
      exact (Set.insert_subset_insert hs.intact).trans_eq (Stores.stored_put s _).symm
    · cases r with
      | ok d => trivial
      | error e => exact hr.1
  · rcases Call.fails_put.mp hfail with rfl | rfl
    · exact ⟨hs, trivial⟩
    · exact ⟨hs.put _, trivial⟩

/-- Remembering whether the file was stored changes nothing else. -/
theorem safe_whileUploaded {α : Type} {uploaded : Bool} {body : FileSession α}
    {A : α → FileStores → Prop} {E : DomainError × Bool → FileStores → Prop}
    (h : body.Safe FilesKept s (Prog.ending A fun e => E (e, uploaded))) :
    (SourceService.whileUploaded uploaded body).Safe FilesKept s (Prog.ending A E) := by
  refine Prog.Safe.handle (E := fun e => E (e, uploaded)) (fun e s₁ hs₁ he => ?_)
    (h.mono fun r s₁ hr => ?_)
  · exact ⟨hs₁, he⟩
  · cases r <;> exact hr

/-- The rows of a new source and the commit. -/
theorem safe_commitRows {sourceId projectId : Uuid} {name storageKey : String}
    {scope : SourceScope} {document : Option (Loaded Document)} {t : Tables}
    (hs : FilesKept s) (hw : s.working = t) (ht : s.committed = t)
    (hown : KeyOf "sources" sourceId storageKey) (hthere : storageKey ∈ s.stored) :
    (do
      let source ← (SourceService.createRows sourceId projectId name storageKey scope
        document).calls .databaseFailure
      let _ ← call .databaseFailure .commit
      pure source : FileSession (Loaded Source)).Safe FilesKept s
        (Prog.ending (fun _ _ => True) fun _ s₁ => s₁.committed = t) := by
  refine Prog.Safe.bind (A := fun _ s₁ => s₁.committed = t ∧ AddsSource t s₁.working
    (some storageKey) ∧ s₁.objects = s.objects) (E := fun _ s₁ => s₁.committed = t)
    (fun source s₁ hs₁ ha => ?_) (fun _ _ he => he) ?_
  · obtain ⟨heq, hadd, hobjects⟩ := ha
    have hstored : s₁.stored = s.stored := by simp [Stores.stored, hobjects]
    have hkept : FilesKept { s₁ with committed := s₁.working } := by
      refine Sound.commit (hadd.keyed (ht ▸ hs.wellFormed)) ?_
      rw [hadd.refs_some, hstored]
      exact Set.insert_subset hthere (ht ▸ hs.intact)
    refine Prog.Safe.call hs₁ ⟨hkept, trivial⟩ fun s₂ hfail => ?_
    rw [Call.fails_commit] at hfail
    exact hfail ▸ ⟨hs₁, heq⟩
  · exact Query.safe_calls (fun s₁ d h₁ => h₁.of_agrees ⟨rfl, rfl⟩) hs
      (fun source t' h => ⟨ht, createRows_ok hown (hw ▸ h), rfl⟩) fun _ _ => ht

/-- Creating a source with a file is safe, for the same reasons. -/
theorem safe_createStoredSource {maxSizeBytes : ℕ} {projectId sourceId : Uuid} {name : String}
    {filename : Text} {size : ℕ} {scope : SourceScope} {documentId : Option Uuid}
    (hs : FilesKept s) (hw : s.working = s.committed)
    (hfresh : sourceId ∉ s.committed.sources.rows.map Loaded.id) :
    (SourceService.createStoredSource lower maxSizeBytes projectId sourceId name filename size scope
      documentId).Safe FilesKept s fun _ _ => True := by
  unfold SourceService.createStoredSource
  split
  · exact ⟨hs, trivial⟩
  have hown := keyOf_uploaded lower "sources" projectId sourceId filename
  have hnew := fresh_source hs hfresh hown
  -- until the commit the committed tables are those at the start
  refine Prog.Safe.handle (E := fun _ s₁ => s₁.committed = s.committed)
    (fun e s₁ hs₁ heq => ?_) (Prog.safe_undoing (fun e s₁ hs₁ he =>
      ⟨hs₁.of_agrees ⟨rfl, rfl⟩, he, he⟩) ?_)
  · dsimp only
    split
    · exact Prog.safe_compensate hs₁ (heq ▸ hnew)
    · exact ⟨hs₁, trivial⟩
  refine Prog.Safe.bind (A := fun _ s₁ => s₁.committed = s.committed ∧ s₁.working = s.committed)
    (E := fun _ s₁ => s₁.committed = s.committed) (fun document s₁ hs₁ ha => ?_)
    (fun _ _ he => he) (safe_whileUploaded ?_)
  · change (call (.storageFailure, false) (.put _) >>= _).Safe _ _ _
    refine Prog.Safe.call hs₁ (safe_whileUploaded ?_) fun s₂ hfail => ?_
    · refine safe_commitRows (hs₁.put _) ha.2 ha.1 hown ?_
      exact (Stores.stored_put s₁ _).symm ▸ Set.mem_insert _ _
    · rcases Call.fails_put.mp hfail with rfl | rfl
      · exact ⟨hs₁, ha.1⟩
      · exact ⟨hs₁.put _, ha.1⟩
  · refine Query.safe_calls (fun s₁ d h₁ => h₁.of_agrees ⟨rfl, rfl⟩) hs (fun document t h => ?_)
      fun _ _ => rfl
    exact ⟨rfl, (targetDocument_ok h).trans hw⟩

/-- An export is safe: the exported file is stored before its key. -/
theorem safe_exportAndSave {document : Loaded Document} {exporting : ExportRun} {t : Tables}
    (hs : FilesKept s) (hw : s.working = t) (ht : s.committed = t)
    (hd : document ∈ t.documents.rows) :
    (DocumentExportService.exportAndSave document exporting).Safe FilesKept s fun _ _ => True := by
  refine Prog.Safe.call hs ?_ fun s₁ hfail => ?_
  · change (if s.objects _ = true then _ else _ : FileSession Unit).Safe _ _ _
    split
    · cases exporting with
      | fails => exact ⟨hs, trivial⟩
      | saves =>
        refine Prog.Safe.call hs (safe_rows (hs.put _) fun _ t' h => ?_) fun s₁ hfail => ?_
        · change (_, withExported s.working document _) = _ at h
          obtain rfl := (Prod.mk.inj h).2
          rw [hw]
          have hkeyed : Keyed t := ht ▸ hs.wellFormed
          refine ⟨keyed_withExported hkeyed hd, ?_⟩
          rw [refs_withExported hkeyed hd, ← ht]
          exact (Set.insert_subset_insert hs.intact).trans_eq (Stores.stored_put s _).symm
        · rcases Call.fails_put.mp hfail with rfl | rfl
          · exact ⟨hs, trivial⟩
          · exact ⟨hs.put _, trivial⟩
    · exact ⟨hs, trivial⟩
  · rw [Call.fails_get] at hfail
    exact hfail ▸ ⟨hs, trivial⟩

/-- So is the export of a document that is read first. -/
theorem safe_runExport {projectId documentId : Uuid} {exporting : ExportRun} (hs : FilesKept s)
    (hw : s.working = s.committed) :
    (DocumentExportService.runExport projectId documentId exporting).Safe FilesKept s
      fun _ _ => True := by
  refine Prog.Safe.bind (A := fun document s₁ => s₁.working = s.committed ∧
    s₁.committed = s.committed ∧ document ∈ s.committed.documents.rows) (E := fun _ _ => True)
    (fun document s₁ hs₁ ha => ?_) (fun _ _ _ => trivial) ?_
  · refine Prog.Safe.handle (E := fun _ _ => True) (fun e s₂ hs₂ _ => ?_)
      ((safe_exportAndSave hs₁ ha.1 ha.2.1 ha.2.2).mono fun r s₂ _ => ?_)
    · exact ⟨hs₂, trivial⟩
    · cases r <;> trivial
  · refine Query.safe_calls (fun s₁ d h₁ => h₁.of_agrees ⟨rfl, rfl⟩) hs (fun document t h => ?_)
      fun _ _ => trivial
    obtain ⟨rfl, hmem, -⟩ := getDocumentOrRaise_ok h
    exact ⟨hw, rfl, hw ▸ hmem⟩

/-- Rows are removed with files that only they name. -/
theorem safe_removal {q : FileQuery (List String)} (hs : FilesKept s)
    (hw : s.working = s.committed)
    (hq : ∀ keys t, q.run s.working = (.ok keys, t) → Removes s.working t keys) :
    (deleting .databaseFailure q).Safe FilesKept s fun _ _ => True := by
  refine Prog.safe_deleting hs fun keys t h => ?_
  have hremoves : Removes s.committed t keys := hw ▸ hq keys t h
  exact ⟨hremoves.keyed hs.wellFormed, hremoves.refs_subset, hremoves.notMem hs.wellFormed⟩

/-- **One operation**, with a failure or a stop at any call. -/
theorem operation_safe (hs : FilesKept s) (hw : s.working = s.committed) :
    ∀ op : FileOperation, op.Fresh s.committed →
      (op.program lower).Safe FilesKept s fun _ _ => True
  | .createProject _, _ => safe_sameFiles hs hw fun _ _ h => by
      cases h
      exact .refl _
  | .uploadDocument .., hfresh => discard (safe_uploadDocument lower hs hw hfresh)
  | .createNoteSource .., hfresh => discard (safe_createStoredSource lower hs hw hfresh)
  | .createFileSource .., hfresh => discard (safe_createStoredSource lower hs hw hfresh)
  | .createUrlSource .., _ => discard (safe_rows hs fun _ t h => by
      have hadd : AddsSource s.committed t none := hw ▸ createUrl_ok h
      refine ⟨hadd.keyed hs.wellFormed, ?_⟩
      rw [hadd.refs]
      exact Set.union_subset (fun _ hk => nomatch hk) hs.intact)
  | .attachSources .., _ => safe_sameFiles hs hw fun _ _ h => (attachSources_ok h).sameFiles
  | .changeStatus .., _ => safe_sameFiles hs hw fun _ _ h => by
      cases h
      exact .modify_status _ _ _
  | .runExport .., _ => safe_runExport hs hw
  | .deleteSource .., _ => safe_removal hs hw fun _ _ h => (deleteSourceRow_ok h).choose_spec.removes
  | .deleteDocumentById .., _ => safe_removal hs hw fun _ _ h =>
      (deleteDocumentRowsById_ok h).choose_spec.1.removes
  | .deleteDocument .., _ => safe_removal hs hw fun _ _ h =>
      (deleteDocumentRows_ok h).choose_spec.1.removes
  | .deleteProject .., _ => safe_removal hs hw fun _ _ h => (deleteProjectRows_ok h).removes

end

/-! ## Sequences of operations -/

/-- An operation begins when no transaction is open, and whatever it leaves open is lost. -/
def FileStep (lower : Text → Text) (s s' : FileStores) : Prop :=
  ∃ (op : FileOperation) (r : Option (Except DomainError Unit)) (s₁ : FileStores),
    op.Fresh s.committed ∧ (op.program lower).Ends s r s₁ ∧ s' = s₁.close

/-- Projects without documents or sources, and any files. -/
def startOf (projects : List Uuid) (objects : String → Bool) : FileStores :=
  ⟨.ofProjects projects, .ofProjects projects, objects⟩

/-- A start keeps every file that is named, as none is. -/
theorem filesKept_startOf (projects : List Uuid) (objects : String → Bool) :
    FilesKept (startOf projects objects) where
  wellFormed := keyed_ofProjects projects
  intact := by
    rintro key (⟨d, hd, -⟩ | ⟨x, hx, -⟩)
    · exact absurd hd List.not_mem_nil
    · exact absurd hx List.not_mem_nil

/-- One operation keeps every committed key's file, however it ends. -/
theorem FileStep.kept {lower : Text → Text} {s s' : FileStores} (h : FileStep lower s s')
    (hs : FilesKept s ∧ s.working = s.committed) : FilesKept s' ∧ s'.working = s'.committed := by
  obtain ⟨op, r, s₁, hfresh, hends, rfl⟩ := h
  have hkept := (hends.safe (operation_safe lower hs.1 hs.2 op hfresh)).1
  exact ⟨hkept.of_agrees ⟨rfl, rfl⟩, rfl⟩

/-- **No dangling reference.** However the operations follow one another, and wherever each of them
fails or stops, between operations every key of a committed document or source has its file. -/
theorem stored_files_exist {lower : Text → Text} {projects : List Uuid} {objects : String → Bool}
    {s : FileStores} (h : Relation.ReflTransGen (FileStep lower) (startOf projects objects) s) :
    (∀ d ∈ s.committed.documents.rows, s.objects d.row.storageKey = true ∧
      ∀ key, d.row.exportedStorageKey = some key → s.objects key = true) ∧
    ∀ x ∈ s.committed.sources.rows, ∀ key, x.row.storageKey = some key →
      s.objects key = true := by
  have hkept : FilesKept s ∧ s.working = s.committed := by
    induction h with
    | refl => exact ⟨filesKept_startOf projects objects, rfl⟩
    | tail _ hstep ih => exact hstep.kept ih
  have hthere := hkept.1.intact
  exact ⟨fun d hd => ⟨hthere (.inl ⟨d, hd, .inl rfl⟩), fun key hkey =>
    hthere (.inl ⟨d, hd, .inr (.inr hkey)⟩)⟩, fun x hx key hkey => hthere (.inr ⟨x, hx, hkey⟩)⟩

/-- After an upload that went through. -/
def afterUpload : FileStores :=
  (((FileOperation.uploadDocument 100 (0, 0) (0, 1) "a.txt".toList 1).program id).run
    (startOf [(0, 0)] fun _ => false)).2.close

/-- After a second one, whose `put` raised although the file was stored. -/
def afterFailedUpload : FileStores :=
  (afterUpload.put
    (objectKey "documents" (0, 0) (0, 2) (String.ofList (fileExtension id "b.txt".toList)))).close

/-- The deletion of the first document is then stopped after its second call: the document's file is
there, and so is the one that the second upload left behind, which belongs to no row. -/
theorem uploaded_file_exists :
    Relation.ReflTransGen (FileStep id) (startOf [(0, 0)] fun _ => false) afterFailedUpload ∧
      afterFailedUpload.committed.documents.rows.map Loaded.id = [(0, 1)] ∧
      (∃ key, KeyOf "documents" (0, 2) key ∧ afterFailedUpload.objects key = true) ∧
      (∀ d ∈ afterFailedUpload.committed.documents.rows,
        afterFailedUpload.objects d.row.storageKey = true ∧
        ∀ key, d.row.exportedStorageKey = some key → afterFailedUpload.objects key = true) ∧
      ∀ x ∈ afterFailedUpload.committed.sources.rows, ∀ key, x.row.storageKey = some key →
        afterFailedUpload.objects key = true := by
  have hupload : FileStep id (startOf [(0, 0)] fun _ => false) afterUpload :=
    ⟨.uploadDocument 100 (0, 0) (0, 1) "a.txt".toList 1, _, _, List.not_mem_nil,
      Prog.ends_run _ _, rfl⟩
  have hfresh : (0, 2) ∉ afterUpload.committed.documents.rows.map Loaded.id := by decide +kernel
  have hraised : FileStep id afterUpload afterFailedUpload :=
    ⟨.uploadDocument 100 (0, 0) (0, 2) "b.txt".toList 1, some (.error .storageFailure), _,
      hfresh, .fail (.put _ _) (.throw _ _), rfl⟩
  have hstopped : FileStep id afterFailedUpload afterFailedUpload :=
    ⟨.deleteDocumentById (0, 0) (0, 1), none, _, trivial, .ok (.ok (.stop _ _)), rfl⟩
  have hrun := ((Relation.ReflTransGen.single hupload).tail hraised).tail hstopped
  have hleft : afterFailedUpload.objects (objectKey "documents" (0, 0) (0, 2)
      (String.ofList (fileExtension id "b.txt".toList))) = true := by
    simp [afterFailedUpload, Stores.close, Stores.put]
  refine ⟨hrun, by decide +kernel, ⟨_, keyOf_objectKey ?_, hleft⟩, stored_files_exist hrun⟩
  rw [String.toList_ofList]
  exact extends_fileExtension id _

end SyncBack.Files
