import SyncBack.Properties.StorageReferences

/-!
# Files that no row names

Without failures every operation but one leaves no file behind that no committed row names. The
exception is the deletion of a document: it deletes the document's own sources with one statement,
and the files of these sources stay.

* `files_covered_iff` — after every operation of a sequence each file is named by a committed row,
  if and only if no deletion of a document finds a source of its own that has a file;
* `note_left_behind` — a note of a document that is deleted.
-/

namespace SyncBack.Files

open TwoStores
open TwoStores.Prog (call transaction deleting compensate undoing)

/-! ## Runs without failures -/

/-- What an operation leaves when no call fails. -/
def next (lower : Text → Text) (s : FileStores) (op : FileOperation) : FileStores :=
  ((op.program lower).run s).2.close

/-- What operations leave that run one after another. -/
def after (lower : Text → Text) (s : FileStores) (ops : List FileOperation) : FileStores :=
  ops.foldl (next lower) s

/-- The identifiers that each operation draws are fresh. -/
def FreshRun (lower : Text → Text) : FileStores → List FileOperation → Prop
  | _, [] => True
  | s, op :: ops => op.Fresh s.committed ∧ FreshRun lower (next lower s op) ops

instance (t : Tables) : ∀ op : FileOperation, Decidable (op.Fresh t)
  | .uploadDocument _ _ documentId _ _ =>
      inferInstanceAs (Decidable (documentId ∉ t.documents.rows.map Loaded.id))
  | .createNoteSource _ _ sourceId _ _ _ _ | .createFileSource _ _ sourceId _ _ _ _ _
  | .createUrlSource _ sourceId _ _ _ _ =>
      inferInstanceAs (Decidable (sourceId ∉ t.sources.rows.map Loaded.id))
  | .createProject _ | .attachSources .. | .changeStatus .. | .runExport .. | .deleteSource ..
  | .deleteDocumentById .. | .deleteDocument .. | .deleteProject _ => isTrue trivial

instance decidableFreshRun (lower : Text → Text) :
    ∀ (ops : List FileOperation) (s : FileStores), Decidable (FreshRun lower s ops)
  | [], _ => isTrue trivial
  | _ :: ops, _ =>
      haveI := decidableFreshRun lower ops
      inferInstanceAs (Decidable (_ ∧ _))

/-- The deletion of a document, if it goes through, finds no source of the document's own that has a
file. -/
def NoOwnFiles (t : Tables) (projectId documentId : Uuid) (p : DocumentStatus → Bool) : Prop :=
  ∀ d ∈ t.documents.rows, d.id = documentId → d.row.projectId = projectId →
    p d.row.status = true →
    ∀ x ∈ t.sources.rows, t.ownSource documentId x = true → x.row.storageKey = none

/-- The operation removes every file of the rows that it removes. -/
def Clean (t : Tables) : FileOperation → Prop
  | .deleteDocumentById projectId documentId =>
      NoOwnFiles t projectId documentId DocumentLifecycle.canDelete
  | .deleteDocument projectId documentId => NoOwnFiles t projectId documentId fun _ => true
  | _ => True

variable {lower : Text → Text} {s : FileStores}

/-- A transaction that goes on naming what was named leaves every file covered. -/
theorem covered_transaction {α : Type} {q : FileQuery α} (hc : Covered refs s)
    (hq : ∀ a t, q.run s.working = (.ok a, t) → refs s.committed ⊆ refs t) :
    Covered refs ((transaction .databaseFailure q).run s).2 := by
  rw [Prog.run_transaction]
  rcases hrun : q.run s.working with ⟨e | a, t⟩
  · exact hc
  · exact hc.trans (hq a t hrun)

/-- Leaving the result out changes nothing. -/
theorem covered_discard {α : Type} {p : FileSession α} (h : Covered refs (p.run s).2) :
    Covered refs ((do let _ ← p : FileSession Unit).run s).2 := by
  rw [Prog.run_bind]
  rcases hp : p.run s with ⟨_ | a, s'⟩ <;> rw [hp] at h <;> exact h

/-- The file of a row that was not stored is removed again. -/
theorem covered_compensate {α : Type} {key : String} {e : DomainError} {s₁ : FileStores}
    (hc : Covered refs s) (ht : s₁.committed = s.committed)
    (hstored : s₁.stored = insert key s.stored) :
    Covered refs ((compensate .storageFailure key e : FileSession α).run s₁).2 := by
  change (s₁.remove key).stored ⊆ refs s₁.committed
  rw [Stores.stored_remove, hstored, ht]
  rintro k ⟨rfl | hk, hne⟩
  · exact absurd rfl hne
  · exact hc hk

/-- An upload covers the file that it stores. -/
theorem covered_uploadDocument {maxSizeBytes : ℕ} {projectId documentId : Uuid} {filename : Text}
    {size : ℕ} (hc : Covered refs s) (hw : s.working = s.committed) :
    Covered refs ((DocumentService.uploadDocument lower maxSizeBytes projectId documentId filename
      size).run s).2 := by
  unfold DocumentService.uploadDocument
  split
  · exact hc
  split
  · exact hc
  have hown := keyOf_uploaded lower "documents" projectId documentId filename
  change Covered refs (Prog.run (Prog.handle _ _) (s.put _)).2
  rw [Prog.run_handle, Prog.run_transaction]
  rcases hrun : Query.run _ (s.put _).working with ⟨e | d, t⟩
  · exact covered_compensate hc rfl (Stores.stored_put s _)
  · have hadd : AddsDocument s.committed t _ := hw ▸ createDocument_ok hown hrun
    exact hc.store hadd.refs.symm.subset (Stores.stored_put s _).subset

/-- Remembering whether the file was stored changes the exception alone. -/
theorem run_whileUploaded {α : Type} {uploaded : Bool} {body : FileSession α} :
    (SourceService.whileUploaded uploaded body).run s = match body.run s with
      | (.ok a, s₁) => (.ok a, s₁)
      | (.error e, s₁) => (.error (e, uploaded), s₁) := by
  rw [SourceService.whileUploaded, Prog.run_handle]
  rcases body.run s with ⟨_ | a, s₁⟩ <;> rfl

/-- A file stored inside the transaction, between two queries. -/
theorem run_storing {α β : Type} {key : String} {q : FileQuery α} {r : α → FileQuery β} :
    ((undoing (fun (_, uploaded) => (DomainError.databaseFailure, uploaded)) do
      let a ← SourceService.whileUploaded false (q.calls .databaseFailure)
      let _ ← SourceService.whileUploaded false (call .storageFailure (.put key))
      SourceService.whileUploaded true do
        let b ← (r a).calls .databaseFailure
        let _ ← call .databaseFailure .commit
        pure b).handle fun (e, uploaded) =>
      if uploaded = true then compensate .storageFailure key e else .throw e : FileSession β).run s
    = match q.run s.working with
      | (.error e, _) => (.error e, s.close)
      | (.ok a, t) => match (r a).run t with
        | (.error e, _) => (compensate .storageFailure key e : FileSession β).run (s.put key).close
        | (.ok b, t) => (.ok b, Prog.committing (s.put key) t) := by
  rw [Prog.run_handle, Prog.run_undoing, Prog.run_bind, run_whileUploaded, Query.run_calls]
  rcases q.run s.working with ⟨e | a, t⟩
  · rfl
  · have hstore : (do
        let _ ← SourceService.whileUploaded false (call .storageFailure (.put key))
        SourceService.whileUploaded true do
          let b ← (r a).calls .databaseFailure
          let _ ← call .databaseFailure .commit
          pure b : TwoStores.Prog Tables String (DomainError × Bool) β).run
        { s with working := t } = match (r a).run t with
          | (.error e, t) => (.error (e, true), { s.put key with working := t })
          | (.ok b, t) => (.ok b, Prog.committing (s.put key) t) := by
      change (SourceService.whileUploaded true _).run { s.put key with working := t } = _
      rw [run_whileUploaded, Prog.run_bind, Query.run_calls]
      rcases (r a).run t with ⟨e | b, t⟩ <;> rfl
    dsimp only
    rw [hstore]
    rcases (r a).run t with ⟨e | b, t⟩ <;> rfl

/-- Creating a source with a file covers the file. -/
theorem covered_createStoredSource {maxSizeBytes : ℕ} {projectId sourceId : Uuid} {name : String}
    {filename : Text} {size : ℕ} {scope : SourceScope} {documentId : Option Uuid}
    (hc : Covered refs s) (hw : s.working = s.committed) :
    Covered refs ((SourceService.createStoredSource lower maxSizeBytes projectId sourceId name
      filename size scope documentId).run s).2 := by
  unfold SourceService.createStoredSource
  split
  · exact hc
  have hown := keyOf_uploaded lower "sources" projectId sourceId filename
  rw [run_storing]
  rcases htarget : Query.run _ s.working with ⟨e | document, t⟩
  · exact hc
  obtain rfl := (targetDocument_ok htarget).trans hw
  dsimp only
  rcases hrun : Query.run _ s.committed with ⟨e | source, t⟩
  · exact covered_compensate hc rfl (Stores.stored_put s _)
  · have hadd : AddsSource s.committed t _ := createRows_ok hown hrun
    exact hc.store hadd.refs_some.symm.subset (Stores.stored_put s _).subset

/-- An export covers the exported file. -/
theorem covered_exportAndSave {document : Loaded Document} (exporting : ExportRun)
    (hs : FilesKept s) (hc : Covered refs s) (hw : s.working = s.committed)
    (hd : document ∈ s.committed.documents.rows) :
    Covered refs ((DocumentExportService.exportAndSave document exporting).run s).2 := by
  change Covered refs (Prog.run (if s.objects document.row.storageKey = true then _ else _) s).2
  split
  · cases exporting with
    | fails => exact hc
    | saves =>
      change Covered refs (Prog.committing (s.put _) (withExported s.working document _))
      refine hc.store ?_ (Stores.stored_put s _).subset
      rw [hw]
      exact (refs_withExported hs.wellFormed hd).symm.subset
  · exact hc

/-- So does the export of a document that is read first. -/
theorem covered_runExport {projectId documentId : Uuid} {exporting : ExportRun}
    (hs : FilesKept s) (hc : Covered refs s) (hw : s.working = s.committed) :
    Covered refs ((DocumentExportService.runExport projectId documentId exporting).run s).2 := by
  rw [DocumentExportService.runExport, Prog.run_bind, Query.run_calls]
  rcases hget : Query.run _ s.working with ⟨e | document, t⟩
  · exact hc
  obtain ⟨rfl, hmem, -⟩ := getDocumentOrRaise_ok hget
  have hcovered := covered_exportAndSave exporting hs hc hw (hw ▸ hmem)
  dsimp only
  rw [Prog.run_handle]
  rcases hrun : (DocumentExportService.exportAndSave document exporting).run s with ⟨e | u, s'⟩ <;>
    rw [hrun] at hcovered <;> exact hcovered

/-! ## Deletions -/

/-- Rows are removed together with the files that only they named. -/
theorem covered_removal {q : FileQuery (List String)} (hc : Covered refs s)
    (hq : ∀ keys t, q.run s.working = (.ok keys, t) →
      refs s.committed ⊆ refs t ∪ {key | key ∈ keys}) :
    Covered refs ((deleting .databaseFailure q).run s).2 := by
  rcases Prog.run_deleting (s := s) (e := DomainError.databaseFailure) (q := q) with
    ⟨e, t, -, hend⟩ | ⟨keys, t, hrun, hcommitted, hstored⟩
  · rw [hend]
    exact hc
  · exact hc.delete (hcommitted.symm ▸ hq keys t hrun) hstored

section

variable {t t' : Tables} {keys : List String}

/-- What a removed source named is among the keys that are returned. -/
theorem RemovesSource.refs_subset {x : Loaded Source} (h : RemovesSource t t' x keys)
    (ht : Keyed t) : refs t ⊆ refs t' ∪ {key | key ∈ keys} := by
  rintro key (⟨d, hd, hname⟩ | ⟨y, hy, hname⟩)
  · exact .inl (.inl ⟨d, h.documents ▸ hd, hname⟩)
  · by_cases hyx : y = x
    · subst hyx
      refine .inr ?_
      rw [Set.mem_ofPred_eq, h.keys_eq, List.mem_filter, Option.mem_toList, decide_eq_true_eq]
      exact ⟨hname, (ht.sources y hy key hname).ne_empty⟩
    · exact .inl (.inr ⟨y, (h.sources y).mpr ⟨hy, hyx⟩, hname⟩)

/-- So is what a removed project named. -/
theorem RemovesProject.refs_subset {projectId : Uuid} (h : RemovesProject t t' projectId keys)
    (ht : Keyed t) : refs t ⊆ refs t' ∪ {key | key ∈ keys} := by
  rintro key (⟨d, hd, hname⟩ | ⟨x, hx, hname⟩)
  · by_cases hproject : d.row.projectId = projectId
    · exact .inr ((h.mem_keys key).mpr ⟨(ht.documents d hd key hname).ne_empty,
        .inl ⟨d, hd, hproject, hname⟩⟩)
    · exact .inl (.inl ⟨d, (h.documents d).mpr ⟨hd, hproject⟩, hname⟩)
  · by_cases hproject : x.row.projectId = projectId
    · exact .inr ((h.mem_keys key).mpr ⟨(ht.sources x hx key hname).ne_empty,
        .inr ⟨x, hx, hproject, hname⟩⟩)
    · exact .inl (.inr ⟨x, (h.sources x).mpr ⟨hx, hproject⟩, hname⟩)

/-- A document is removed with all its files when its own sources have none. -/
theorem RemovesDocument.refs_subset {d : Loaded Document} (h : RemovesDocument t t' d keys)
    (ht : Keyed t)
    (hown : ∀ x ∈ t.sources.rows, t.ownSource d.id x = true → x.row.storageKey = none) :
    refs t ⊆ refs t' ∪ {key | key ∈ keys} := by
  rintro key (⟨y, hy, hname⟩ | ⟨x, hx, hname⟩)
  · by_cases hyd : y = d
    · subst hyd
      refine .inr ?_
      rw [Set.mem_ofPred_eq, h.keys_eq, mem_storageKeys]
      exact ⟨hname, (ht.documents y hy key hname).ne_empty⟩
    · exact .inl (.inl ⟨y, (h.documents y).mpr ⟨hy, hyd⟩, hname⟩)
  · rcases hsource : t.ownSource d.id x with _ | _
    · exact .inl (.inr ⟨x, (h.sources x).mpr ⟨hx, hsource⟩, hname⟩)
    · exact nomatch (hown x hx hsource).symm.trans hname

/-- A document is found by its identifiers. -/
theorem getDocumentOrRaise_run {d : Loaded Document} (hd : d ∈ t.documents.rows) :
    (getDocumentOrRaise d.row.projectId d.id).run t = (.ok d, t) := by
  rw [getDocumentOrRaise, DocumentRepository.run_getById_bind, Table.find?_of_mem hd]
  dsimp only
  rw [if_pos rfl]
  rfl

/-- Deleting it goes through. -/
theorem deleteRows_goes_through {d : Loaded Document} (hd : d ∈ t.documents.rows) :
    ∃ keys t', (DocumentService.deleteRows d.row.projectId d.id).run t = (.ok keys, t') := by
  rw [DocumentService.deleteRows, Query.run_bind, getDocumentOrRaise_run hd]
  exact ⟨_, _, rfl⟩

/-- Deleting it by its identifier goes through, if its status allows. -/
theorem deleteRowsById_goes_through {d : Loaded Document} (hd : d ∈ t.documents.rows)
    (hstatus : DocumentLifecycle.canDelete d.row.status = true) :
    ∃ keys t', (DocumentService.deleteRowsById d.row.projectId d.id).run t = (.ok keys, t') := by
  rw [DocumentService.deleteRowsById, Query.run_bind, getDocumentOrRaise_run hd]
  dsimp only
  rw [if_pos hstatus]
  have hfound : ((t.deleteSources (t.ownSource d.id)).documents.rows.find? fun y =>
      decide (y.id = d.id) && decide (y.row.projectId = d.row.projectId)).isSome := by
    rw [List.find?_isSome]
    exact ⟨d, hd, by simp⟩
  obtain ⟨y, hy⟩ := Option.isSome_iff_exists.mp hfound
  rw [Query.run_bind, DocumentRepository.run_deleteDocumentScopedSources]
  dsimp only
  rw [Query.run_bind, DocumentRepository.run_deleteById, hy]
  exact ⟨_, _, rfl⟩

/-- The file of a document's own source stays. -/
theorem RemovesDocument.left_behind {d : Loaded Document} (h : RemovesDocument t t' d keys)
    (ht : Keyed t) {x : Loaded Source} (hx : x ∈ t.sources.rows)
    (hown : t.ownSource d.id x = true) {key : String} (hkey : x.row.storageKey = some key) :
    key ∉ keys ∧ key ∉ refs t' := by
  constructor
  · rw [h.keys_eq, mem_storageKeys]
    rintro ⟨hname, -⟩
    exact not_document_and_source (ht.documents d h.mem key hname) (ht.sources x hx key hkey)
  · refine h.removes.notMem_source ht hx (fun hx' => ?_) hkey
    rw [((h.sources x).mp hx').2] at hown
    cases hown

end

/-- The deletion of a document covers the files just when its own sources have none. -/
theorem covered_deletion_iff {q : FileQuery (List String)} {projectId documentId : Uuid}
    {p : DocumentStatus → Bool} (hs : FilesKept s) (hc : Covered refs s)
    (hw : s.working = s.committed)
    (hok : ∀ keys t, q.run s.working = (.ok keys, t) → ∃ d, RemovesDocument s.working t d keys ∧
      d.id = documentId ∧ d.row.projectId = projectId ∧ p d.row.status = true)
    (hthrough : ∀ d ∈ s.working.documents.rows, d.id = documentId → d.row.projectId = projectId →
      p d.row.status = true → ∃ keys t, q.run s.working = (.ok keys, t)) :
    Covered refs ((deleting .databaseFailure q).run s).2 ↔
      NoOwnFiles s.committed projectId documentId p := by
  rw [hw] at hok hthrough
  constructor
  · intro hcovered d hd hid hproject hstatus x hx hown
    obtain ⟨keys, t, hrun⟩ := hthrough d hd hid hproject hstatus
    obtain ⟨d', hremoves, hid', -⟩ := hok keys t hrun
    obtain rfl := Table.eq_of_id_eq _ hremoves.mem hd (hid'.trans hid.symm)
    refine Option.eq_none_iff_forall_ne_some.mpr fun key hkey => ?_
    obtain ⟨hkeys, hrefs⟩ := hremoves.left_behind hs.wellFormed hx (hid ▸ hown) hkey
    rcases Prog.run_deleting (s := s) (e := DomainError.databaseFailure) (q := q) with
      ⟨e, t', herror, -⟩ | ⟨keys', t', hrun', hcommitted, hstored⟩
    · rw [hw, hrun] at herror
      exact nomatch (Prod.mk.inj herror).1
    · rw [hw, hrun] at hrun'
      obtain ⟨⟨⟩, rfl⟩ := Prod.mk.inj hrun'
      refine hrefs (hcommitted ▸ hcovered ?_)
      rw [hstored]
      exact ⟨hs.intact (.inr ⟨x, hx, hkey⟩), hkeys⟩
  · intro hclean
    refine covered_removal hc fun keys t hrun => ?_
    rw [hw] at hrun
    obtain ⟨d, hremoves, hid, hproject, hstatus⟩ := hok keys t hrun
    exact hremoves.refs_subset hs.wellFormed fun x hx hown =>
      hclean d hremoves.mem hid hproject hstatus x hx (hid ▸ hown)

/-! ## Sequences of operations -/

/-- **One operation** leaves every file named just when it is clean. -/
theorem covered_next_iff (hs : FilesKept s) (hc : Covered refs s) (hw : s.working = s.committed)
    (op : FileOperation) : Covered refs (next lower s op) ↔ Clean s.committed op := by
  change Covered refs ((op.program lower).run s).2 ↔ _
  cases op with
  | createProject projectId =>
    refine iff_of_true (covered_transaction hc fun _ _ h => ?_) trivial
    cases h
    exact hw ▸ (SameFiles.refl _).refs_eq.symm.subset
  | uploadDocument => exact iff_of_true (covered_discard (covered_uploadDocument hc hw)) trivial
  | createNoteSource =>
    exact iff_of_true (covered_discard (covered_createStoredSource hc hw)) trivial
  | createFileSource =>
    exact iff_of_true (covered_discard (covered_createStoredSource hc hw)) trivial
  | createUrlSource =>
    refine iff_of_true (covered_discard (covered_transaction hc fun _ t h => ?_)) trivial
    have hadd : AddsSource s.committed t none := hw ▸ createUrl_ok h
    exact hadd.refs ▸ Set.subset_union_right
  | attachSources =>
    refine iff_of_true (covered_transaction hc fun _ t h => ?_) trivial
    exact hw ▸ (attachSources_ok h).sameFiles.refs_eq.symm.subset
  | changeStatus =>
    refine iff_of_true (covered_transaction hc fun _ _ h => ?_) trivial
    cases h
    exact hw ▸ (SameFiles.modify_status s.working _ _).refs_eq.symm.subset
  | runExport => exact iff_of_true (covered_runExport hs hc hw) trivial
  | deleteSource =>
    refine iff_of_true (covered_removal hc fun _ _ h => ?_) trivial
    obtain ⟨x, hremoves⟩ := deleteSourceRow_ok h
    rw [hw] at hremoves
    exact hremoves.refs_subset hs.wellFormed
  | deleteProject =>
    refine iff_of_true (covered_removal hc fun _ _ h => ?_) trivial
    have hremoves := deleteProjectRows_ok h
    rw [hw] at hremoves
    exact hremoves.refs_subset hs.wellFormed
  | deleteDocumentById =>
    refine covered_deletion_iff hs hc hw (fun _ _ h => deleteDocumentRowsById_ok h)
      fun d hd hid hproject hstatus => ?_
    subst hid hproject
    exact deleteRowsById_goes_through hd hstatus
  | deleteDocument projectId documentId =>
    refine covered_deletion_iff (q := DocumentService.deleteRows projectId documentId)
      (p := fun _ => true) hs hc hw (fun _ _ h => ?_) fun d hd hid hproject _ => ?_
    · obtain ⟨d, hremoves, hid, hproject⟩ := deleteDocumentRows_ok h
      exact ⟨d, hremoves, hid, hproject, rfl⟩
    · subst hid hproject
      exact deleteRows_goes_through hd

/-- One list of operations after another. -/
theorem after_append (lower : Text → Text) (s : FileStores) (pre post : List FileOperation) :
    after lower s (pre ++ post) = after lower (after lower s pre) post :=
  List.foldl_append

/-- A run is fresh in its parts, by induction on the first. -/
theorem FreshRun.of_append : ∀ {pre post : List FileOperation} {s : FileStores},
    FreshRun lower s (pre ++ post) → FreshRun lower s pre ∧ FreshRun lower (after lower s pre) post
  | [], _, _, h => ⟨trivial, h⟩
  | _ :: _, _, _, h => ⟨⟨h.1, (of_append h.2).1⟩, (of_append h.2).2⟩

/-- A run keeps every committed key's file, by induction on the operations. -/
theorem after_kept : ∀ {ops : List FileOperation} {s : FileStores}, FreshRun lower s ops →
    FilesKept s ∧ s.working = s.committed →
    FilesKept (after lower s ops) ∧ (after lower s ops).working = (after lower s ops).committed
  | [], _, _, hs => hs
  | op :: ops, s, hfresh, hs =>
      @after_kept ops (next lower s op) hfresh.2
        (FileStep.kept ⟨op, _, _, hfresh.1, Prog.ends_run _ _, rfl⟩ hs)

/-- No operation fails, so that clean operations leave every file named. -/
theorem covered_after {s : FileStores} (hs : FilesKept s ∧ s.working = s.committed)
    (hc : Covered refs s) {ops : List FileOperation} (hfresh : FreshRun lower s ops)
    (hclean : ∀ pre op post, ops = pre ++ op :: post →
      Clean (after lower s pre).committed op) : Covered refs (after lower s ops) := by
  induction ops using List.reverseRecOn with
  | nil => exact hc
  | append_singleton pre op ih =>
    have hpre := (FreshRun.of_append hfresh).1
    have hkept := after_kept hpre hs
    have hcovered : Covered refs (after lower s pre) := ih hpre fun pre' op' post heq =>
      hclean pre' op' (post ++ [op]) (by rw [heq, List.append_assoc, List.cons_append])
    rw [after_append]
    exact (covered_next_iff hkept.1 hcovered hkept.2 op).mpr (hclean pre op [] rfl)

/-- **When no file is left behind.** In a sequence of operations none of which fails, each file is
named by a committed row after every operation, if and only if no deletion of a document finds a
source of its own that has a file. -/
theorem files_covered_iff {lower : Text → Text} {projects : List Uuid} {ops : List FileOperation}
    (hfresh : FreshRun lower (startOf projects fun _ => false) ops) :
    (∀ pre post, ops = pre ++ post →
      Covered refs (after lower (startOf projects fun _ => false) pre)) ↔
    ∀ pre op post, ops = pre ++ op :: post →
      Clean (after lower (startOf projects fun _ => false) pre).committed op := by
  have hstart := And.intro (filesKept_startOf projects fun _ => false) (rfl : Tables.ofProjects projects = _)
  constructor
  · rintro hcovered pre op post rfl
    have hkept := after_kept (FreshRun.of_append hfresh).1 hstart
    refine (@covered_next_iff lower _ hkept.1 (hcovered pre (op :: post) rfl) hkept.2 op).mp ?_
    have hnext := hcovered (pre ++ [op]) post (by simp)
    rwa [after_append] at hnext
  · rintro hclean pre post rfl
    refine covered_after hstart (fun _ hk => nomatch hk) (FreshRun.of_append hfresh).1
      fun pre' op post' heq => hclean pre' op (post' ++ post) ?_
    rw [heq, List.append_assoc, List.cons_append]

/-! ## A note that is left behind -/

/-- A document is uploaded, a note is added to it, and the document is deleted. -/
def noteOfDocument : List FileOperation :=
  [.uploadDocument 100 (0, 0) (0, 1) "a.txt".toList 1,
    .createNoteSource 100 (0, 0) (0, 2) "note" 1 .document (some (0, 1)),
    .deleteDocumentById (0, 0) (0, 1)]

/-- The note is deleted before its document. -/
def noteDeletedFirst : List FileOperation :=
  [.uploadDocument 100 (0, 0) (0, 1) "a.txt".toList 1,
    .createNoteSource 100 (0, 0) (0, 2) "note" 1 .document (some (0, 1)),
    .deleteSource (0, 0) (0, 2), .deleteDocumentById (0, 0) (0, 1)]

/-- A project without documents or sources, and no files. -/
def emptyProject : FileStores := startOf [(0, 0)] fun _ => false

/-- Deleting the note before its document leaves every file covered. -/
theorem note_deleted_first_covered : Covered refs (after id emptyProject noteDeletedFirst) := by
  refine (files_covered_iff (by decide +kernel)).mpr (fun pre op post heq => ?_) noteDeletedFirst []
    (List.append_nil _).symm
  rcases pre with _ | ⟨a, _ | ⟨b, _ | ⟨c, _ | ⟨d, pre⟩⟩⟩⟩ <;>
    simp only [noteDeletedFirst, List.nil_append, List.cons_append, List.cons.injEq] at heq
  · obtain ⟨rfl, -⟩ := heq
    trivial
  · obtain ⟨-, rfl, -⟩ := heq
    trivial
  · obtain ⟨-, -, rfl, -⟩ := heq
    trivial
  · obtain ⟨rfl, rfl, rfl, rfl, -⟩ := heq
    have hnone : (after id emptyProject (noteDeletedFirst.take 3)).committed.sources.rows = [] := by
      decide +kernel
    exact fun _ _ _ _ _ x hx => absurd (hnone ▸ hx : x ∈ []) List.not_mem_nil
  · simp at heq

/-- The row of the note is deleted with the document, and its file stays. -/
theorem note_left_behind :
    ¬ ∀ (lower : Text → Text) (projects : List Uuid) (ops : List FileOperation),
      FreshRun lower (startOf projects fun _ => false) ops → ∀ pre post, ops = pre ++ post →
      Covered refs (after lower (startOf projects fun _ => false) pre) := by
  intro h
  have hcovered := h id [(0, 0)] noteOfDocument (by decide +kernel) noteOfDocument [] (by simp)
  have hfile : (after id emptyProject noteOfDocument).objects
      (sourceStorageKey (0, 0) (0, 2) ".txt") = true := by decide +kernel
  have hdocuments : (after id emptyProject noteOfDocument).committed.documents.rows = [] := by
    decide +kernel
  have hsources : (after id emptyProject noteOfDocument).committed.sources.rows = [] := by
    decide +kernel
  rcases hcovered hfile with ⟨d, hd, -⟩ | ⟨x, hx, -⟩
  · exact absurd (hdocuments ▸ hd : d ∈ []) List.not_mem_nil
  · exact absurd (hsources ▸ hx : x ∈ []) List.not_mem_nil

end SyncBack.Files
