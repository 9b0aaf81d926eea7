import SyncBack.Application.SerialRules

/-!
# Sources of a running analysis

The worker reads the sources of an analysis while the document is in progress. Two operations take
sources away, and each checks something else:

* `delete_source` refuses if a document that the source is attached to is in progress, but a source
  of the project is read by every analysis of the project without being attached;
* `delete_document_by_id` refuses if the document itself is in progress, and takes its sources of
  scope `document` with it, even those that are attached to another document as well.

`SparesAnalyses` says of an operation that it is no such deletion. `analysed_sources_kept` shows
that then the sources of an analysis stay as long as its document is in progress;
`project_source_deleted_during_analysis` and `shared_source_deleted_during_analysis` are the two
ways in which they do not.
-/

namespace SyncBack

open Txn Session

/-! ## What the reads of the deletions find -/

section reads

variable {t : Process} {s : AppDb} {α : Type} {Q : Except DomainError α → AppDb → Prop}

/-- The documents that a source is attached to are found. -/
theorem ensures_listAttachedDocumentIds {sourceId : Uuid} {rest : List Uuid → Session α}
    (h : ∀ ids, (∀ id, id ∈ ids ↔ s.read t (.documentSource id sourceId) ≠ none) →
      (rest ids).Ensures t s Q) :
    (SourceRepository.listAttachedDocumentIds sourceId >>= rest).Ensures t s Q := by
  refine Prog.Ensures.find (h _ fun id => Db.mem_filterMap_select_iff ?_ fun _ =>
    ⟨decide_eq_true rfl, rfl⟩)
  intro k row hp hid
  cases k with
  | documentSource doc src =>
      obtain rfl := Option.some.inj hid
      obtain rfl := of_decide_eq_true hp
      rfl
  | _ => cases hid

/-- An attached source is one with a link. -/
theorem mem_attachedSources {documentId src : Uuid} :
    src ∈ ((s.select t fun
      | .documentSource doc _, _ => decide (doc = documentId)
      | _, _ => false).filterMap fun
        | ⟨.documentSource _ src, _⟩ => some src
        | _ => none) ↔ s.read t (.documentSource documentId src) ≠ none := by
  refine Db.mem_filterMap_select_iff ?_ fun _ => ⟨decide_eq_true rfl, rfl⟩
  intro k row hp hid
  cases k with
  | documentSource doc src' =>
      obtain rfl := Option.some.inj hid
      obtain rfl := of_decide_eq_true hp
      rfl
  | _ => cases hid

/-- The sources that are attached to a document are found. -/
theorem ensures_attachedSources {documentId : Uuid} {rest : List Uuid → Session α}
    (h : ∀ ids, (∀ src, src ∈ ids ↔ s.read t (.documentSource documentId src) ≠ none) →
      (rest ids).Ensures t s Q) :
    (DocumentRepository.attachedSources documentId >>= rest).Ensures t s Q :=
  Prog.Ensures.find (h _ fun _ => mem_attachedSources)

/-- The documents with the given ids are read. -/
theorem ensures_getManyByIds {documentIds : List Uuid} {rest : List (Loaded Document) → Session α}
    (h : ∀ documents : List (Loaded Document),
      (∀ id row, id ∈ documentIds → s.read t (.document id) = some row → ⟨id, row⟩ ∈ documents) →
      (rest documents).Ensures t s Q) :
    (DocumentRepository.getManyByIds documentIds >>= rest).Ensures t s Q := by
  unfold DocumentRepository.getManyByIds
  split
  · rename_i hnil
    refine h [] fun id row hid => ?_
    rw [hnil] at hid
    exact absurd hid List.not_mem_nil
  · refine Prog.Ensures.find (h _ fun id row hid hrow => List.mem_filterMap.mpr ?_)
    exact ⟨⟨.document id, row⟩, Db.mem_select.mpr ⟨hrow, decide_eq_true hid⟩, rfl⟩

/-- The checks of all documents pass, or one of them raises. -/
theorem ensures_assertSourcesMutable {rest : Unit → Session α} (herror : ∀ e, Q (.error e) s) :
    ∀ {documents : List (Loaded Document)},
      ((∀ document ∈ documents, document.row.status ≠ .inProgress) →
        (rest ()).Ensures t s Q) →
      (Prog.each documents SourceService.assertSourcesMutable >>= rest).Ensures t s Q
  | [], h => h fun _ hmem => absurd hmem List.not_mem_nil
  | document :: documents, h => by
      by_cases hstatus : document.row.status = .inProgress
      · have hraise : SourceService.assertSourcesMutable document = throw _ :=
          if_neg (by simp [DocumentLifecycle.canEditSources, hstatus])
        change ((SourceService.assertSourcesMutable document >>= fun _ =>
          Prog.each documents SourceService.assertSourcesMutable) >>= rest).Ensures t s Q
        rw [hraise]
        exact herror _
      · have hpass : SourceService.assertSourcesMutable document = pure () :=
          if_pos (by simp [DocumentLifecycle.canEditSources, hstatus])
        change ((SourceService.assertSourcesMutable document >>= fun _ =>
          Prog.each documents SourceService.assertSourcesMutable) >>= rest).Ensures t s Q
        rw [hpass]
        refine ensures_assertSourcesMutable herror fun hall => h fun d hd => ?_
        rcases List.mem_cons.mp hd with rfl | hd
        · exact hstatus
        · exact hall d hd

end reads

/-! ## The rows that an analysis reads -/

/-- The rows of an analysis of the document that reads the given sources: the document, the sources
and the links between them. -/
def AnalysedKey (base : AppDb) (documentId : Uuid) (sources : List Uuid) : Key → Prop
  | .document id => id = documentId
  | .source id => id ∈ sources
  | .documentSource doc src =>
      doc = documentId ∧ src ∈ sources ∧ base.committed (.documentSource doc src) ≠ none
  | _ => False

/-- The document stays in its project, a source stays as it was. -/
def AnalysedRow (base : AppDb) (projectId : Uuid) : (k : Key) → Row k → Prop
  | .document _, row => row.projectId = projectId
  | .source id, row => base.committed (.source id) = some row
  | _, _ => True

/-- The rows of the analysis are there as they were in `base`. -/
def AnalysisIntact (base : AppDb) (projectId documentId : Uuid) (sources : List Uuid)
    (s : AppDb) : Prop :=
  s.Protected (AnalysedKey base documentId sources) (AnalysedRow base projectId)

/-- The sources that `list_for_analysis` lists. -/
def ReadByAnalysis (s : AppDb) (projectId documentId src : Uuid) : Prop :=
  ∃ row : Source, s.committed (.source src) = some row ∧ row.projectId = projectId ∧
    (row.scope = .project ∨ s.committed (.documentSource documentId src) ≠ none)

/-- What the analysis lists it reads. -/
theorem readByAnalysis_of_mem {t : Process} {s s' : AppDb} {projectId documentId : Uuid}
    {sources : List Uuid} (hquiet : s.Quiet)
    (h : (SourceRepository.listForAnalysis projectId documentId).runAlone t s =
      some (.ok sources, s')) {src : Uuid} (hmem : src ∈ sources) :
    ReadByAnalysis s projectId documentId src := by
  have hread : ∀ k, s.read t k = s.committed k := (Db.idle_of_quiet hquiet t).read
  have hsources := (Except.ok.inj (Prod.mk.inj (Option.some.inj h)).1).symm
  rw [hsources, List.mem_filterMap] at hmem
  obtain ⟨⟨k, row⟩, hrow, hid⟩ := hmem
  obtain ⟨hk, hp⟩ := Db.mem_select.mp hrow
  cases k with
  | source id =>
      obtain rfl := Option.some.inj hid
      simp only [Bool.and_eq_true, Bool.or_eq_true, decide_eq_true_eq] at hp
      refine ⟨row, by rw [← hread, hk], hp.1, hp.2.imp_right fun hattached => ?_⟩
      rw [← hread]
      exact mem_attachedSources.mp hattached
  | _ => cases hid

/-- A start of an analysis: its rows are there. -/
theorem analysisIntact_of_list {s : AppDb} {projectId documentId : Uuid} {sources : List Uuid}
    (hquiet : s.Quiet) {document : Document} (hdocument : s.committed (.document documentId) = some document)
    (hproject : document.projectId = projectId)
    (hsources : ∀ src ∈ sources, ReadByAnalysis s projectId documentId src) :
    AnalysisIntact s projectId documentId sources s := by
  intro k hk
  cases k with
  | document id =>
      obtain rfl : id = documentId := hk
      exact .of_quiet hquiet hdocument hproject
  | source id =>
      obtain ⟨row, hrow, -⟩ := hsources id hk
      exact .of_quiet hquiet hrow hrow
  | documentSource doc src =>
      obtain ⟨row, hrow⟩ := Option.ne_none_iff_exists'.mp hk.2.2
      exact .of_quiet hquiet hrow trivial
  | _ => exact hk.elim

/-! ## Operations that delete nothing -/

section spares

variable {base : AppDb} {projectId documentId : Uuid} {sources : List Uuid}

/-- The statements about documents and jobs leave the rows of an analysis. -/
theorem Sent.spares {kind : OperationKind} {f : AppStmt} (h : Sent kind f) (k : Key)
    (hk : AnalysedKey base documentId sources k) : f.Spares k (AnalysedRow base projectId k) := by
  refine ⟨?_, fun p r hf _ => ?_⟩
  · rintro p g r rfl - hr
    cases k with
    | document id => cases h <;> exact hr
    | source id => cases h
    | documentSource doc src => trivial
    | _ => exact hk.elim
  · have hdeletes := h.deletes
    rw [hf] at hdeletes
    cases hdeletes

/-- The statements of operations that add sources and links. -/
inductive AddsSource : AppStmt → Prop
  | reads {f} (h : Reads f) : AddsSource f
  | draw : AddsSource .draw
  | source {id} {row : Source} : AddsSource (.insert (.source id) row)
  | link {doc src} : AddsSource (.insert (.documentSource doc src) ())
  | commit : AddsSource .commit
  | rollback : AddsSource .rollback

instance : AllowsTransaction AddsSource where
  reads := .reads
  commit := .commit
  rollback := .rollback

/-- So do the statements that add sources. -/
theorem AddsSource.spares {f : AppStmt} (h : AddsSource f) (k : Key) {P : Row k → Prop} :
    f.Spares k P := by
  constructor
  · rintro p g r rfl
    rcases h with ⟨⟨⟩⟩
  · rintro p r rfl
    rcases h with ⟨⟨⟩⟩

/-- Finding the document of a new source adds nothing. -/
theorem addsSource_targetDocument {projectId : Uuid} {scope : SourceScope}
    {documentId : Option Uuid} :
    (SourceService.targetDocument projectId scope documentId).Sends AddsSource := by
  unfold SourceService.targetDocument
  split
  · trivial
  · trivial
  · refine (sends_getDocumentOrRaise _ _).bind fun document => Prog.Sends.bind ?_ fun _ => trivial
    unfold SourceService.assertSourcesMutable
    split <;> trivial

/-- Attaching a source adds a link. -/
theorem addsSource_attachToDocument {sourceId documentId : Uuid} :
    (SourceRepository.attachToDocument sourceId documentId).Sends AddsSource := by
  refine (Prog.Sends.stmt AddsSource.link).bind fun inserted => ?_
  split
  · refine (sends_fetch _).bind fun document => (sends_fetch _).bind fun source => ?_
    split <;> trivial
  · trivial

/-- So does attaching it to the document that was found. -/
theorem addsSource_attachTo {source : Loaded Source} {document : Option (Loaded Document)} :
    (SourceService.attachTo source document).Sends AddsSource := by
  cases document
  · trivial
  · exact addsSource_attachToDocument

/-- Attaching sources adds links. -/
theorem addsSource_attachSources {document : Loaded Document} {sources : List Uuid} :
    (SourceService.attachSourcesToDocument document sources).Sends AddsSource := by
  refine Prog.Sends.bind ?_ fun _ => sends_withUow ?_
  · unfold SourceService.assertSourcesMutable
    split <;> trivial
  · exact (Prog.Sends.each fun src _ => addsSource_attachToDocument).bind fun _ =>
      sends_commit.bind fun _ => trivial

/-- Creating a URL source adds it. -/
theorem addsSource_createUrlSource {projectId : Uuid} {name : String} {url : Except String String}
    {scope : SourceScope} {documentId : Option Uuid} :
    (SourceService.createUrlSource projectId name url scope documentId).Sends AddsSource := by
  cases url with
  | error message => trivial
  | ok url =>
      refine sends_withUow (addsSource_targetDocument.bind fun document => Prog.Sends.bind ?_
        fun source => addsSource_attachTo.bind fun _ => sends_commit.bind fun _ => trivial)
      refine (Prog.Sends.stmt AddsSource.draw).bind fun id =>
        (Prog.Sends.stmt AddsSource.source).bind fun inserted => ?_
      split <;> trivial

/-- So does creating one with a file. -/
theorem addsSource_createStoredSource {maxSizeBytes : ℕ} {projectId : Uuid} {name : String}
    {file : Upload} {scope : SourceScope} {documentId : Option Uuid} :
    (SourceService.createStoredSource maxSizeBytes projectId name file scope documentId).Sends
      AddsSource := by
  unfold SourceService.createStoredSource
  split
  · trivial
  refine (Prog.Sends.stmt AddsSource.draw).bind fun id =>
    sends_withUow (addsSource_targetDocument.bind fun document => ?_)
  split
  · refine Prog.Sends.bind ?_ fun source => addsSource_attachTo.bind fun _ =>
      sends_commit.bind fun _ => trivial
    refine (Prog.Sends.stmt AddsSource.source).bind fun inserted => ?_
    split <;> trivial
  · trivial

end spares

/-! ## The deletions -/

/-- What each deletion has to leave alone, beside what it checks itself: a source of the project
while a document of the project is in progress, and a source of the document that another document
in progress reads as well. -/
def SparesAnalyses : ProjectOperation → AppDb → Prop
  | .deleteSource projectId sourceId, s => ∀ row : Source, s.committed (.source sourceId) = some row →
      row.projectId = projectId → row.scope = .project →
      (∀ (id : Uuid) (document : Document), s.committed (.documentSource id sourceId) ≠ none →
        s.committed (.document id) = some document → document.status ≠ .inProgress) →
      ∀ (id : Uuid) (document : Document), s.committed (.document id) = some document →
        document.projectId = projectId → document.status ≠ .inProgress
  | .deleteDocument projectId documentId, s => ∀ deleted : Document,
      s.committed (.document documentId) = some deleted → deleted.projectId = projectId →
      deleted.status ≠ .inProgress → ∀ (src : Uuid) (row : Source),
      s.committed (.source src) = some row → row.scope = .document →
      s.committed (.documentSource documentId src) ≠ none →
      ∀ (id : Uuid) (document : Document), s.committed (.document id) = some document →
        document.projectId = row.projectId → document.status = .inProgress →
        s.committed (.documentSource id src) = none
  | _, _ => True

section deletions

variable {base s : AppDb} {projectId documentId : Uuid} {sources : List Uuid} {t : Process}

/-- The keys of an intact analysis, read by somebody with no open transaction. -/
theorem AnalysisIntact.document (h : AnalysisIntact base projectId documentId sources s) :
    ∃ row : Document, s.committed (.document documentId) = some row ∧ row.projectId = projectId :=
  (h (.document documentId) rfl).committed

/-- A source that the analysis reads is as it was. -/
theorem AnalysisIntact.source (h : AnalysisIntact base projectId documentId sources s) {src : Uuid}
    (hsrc : src ∈ sources) : s.committed (.source src) = base.committed (.source src) := by
  obtain ⟨row, hrow, hbase⟩ := (h (.source src) hsrc).committed
  exact hrow.trans hbase.symm

/-- So is its link. -/
theorem AnalysisIntact.link (h : AnalysisIntact base projectId documentId sources s) {src : Uuid}
    (hsrc : src ∈ sources) (hlink : base.committed (.documentSource documentId src) ≠ none) :
    s.committed (.documentSource documentId src) ≠ none := by
  obtain ⟨row, hrow, -⟩ := (h (.documentSource documentId src) ⟨rfl, hsrc, hlink⟩).committed
  rw [hrow]
  exact Option.some_ne_none row

/-- Links of sources that the analysis does not read. -/
theorem ensures_onDeleteSources {deleted : List Uuid} (hdeleted : ∀ src ∈ deleted, src ∉ sources)
    (hs : AnalysisIntact base projectId documentId sources s) :
    (ForeignKeys.onDeleteSources deleted).Ensures t s
      fun _ s' => AnalysisIntact base projectId documentId sources s' := by
  refine Prog.Ensures.bind (ensures_deleteWhere (fun k hk row _ => ?_) hs) (fun _ _ h => h.1)
    fun _ _ h => h
  cases k with
  | documentSource doc src => exact decide_eq_false fun hmem => hdeleted src hmem hk.2.1
  | _ => rfl

/-- Jobs, runs and suggestions, and the links of another document. -/
theorem ensures_onDeleteDocument {deleted : Uuid} (hne : deleted ≠ documentId)
    (hs : AnalysisIntact base projectId documentId sources s) :
    (ForeignKeys.onDeleteDocument deleted).Ensures t s
      fun _ s' => AnalysisIntact base projectId documentId sources s' := by
  have hclear : ∀ (jobs : List Uuid) (rows : List (Sigma Row)),
      (ForeignKeys.clearCurrentJobs jobs rows).Sends fun f =>
        ∀ k, AnalysedKey base documentId sources k → f.Spares k (AnalysedRow base projectId k) := by
    intro jobs rows
    induction rows with
    | nil => trivial
    | cons row rows ih =>
        obtain ⟨k, row⟩ := row
        cases k with
        | document id =>
            refine (sends_update fun k hk => ⟨?_, ?_⟩).bind fun o => (sends_matched o).bind fun _ => ih
            · rintro p g r ⟨⟩ - hr
              exact hr
            · rintro p r ⟨⟩
        | _ => exact ih
  refine Prog.Ensures.bind (ensures_deleteWhere (fun k hk row _ => ?_) hs) (fun jobs s₁ h₁ => ?_)
    fun _ _ h => h
  · cases k with
    | job id => exact hk.elim
    | _ => rfl
  refine Prog.Ensures.seq ?_ fun _ s₂ h₂ => ?_
  · refine Prog.Ensures.bind (ensures_deleteWhere (fun k hk row _ => ?_) h₁.1) (fun _ s₂ h₂ => ?_)
      fun _ _ h => h
    · cases k with
      | jobSource jobId src => exact hk.elim
      | suggestion id => exact hk.elim
      | _ => rfl
    · exact Prog.Ensures.find (ensures_spares (fun _ hf => hf) (hclear _ _) h₂.1)
  · refine Prog.Ensures.bind (ensures_deleteWhere (fun k hk row _ => ?_) h₂) (fun _ _ h => h.1)
      fun _ _ h => h
    cases k with
    | suggestion id => exact hk.elim
    | documentSource doc src => exact decide_eq_false fun heq => hne (heq.symm.trans hk.1)
    | _ => rfl

variable (hquiet : s.Quiet) (hs : AnalysisIntact base projectId documentId sources s)
  (hread : ∀ src ∈ sources, ReadByAnalysis base projectId documentId src)
  (hstatus : documentStatus s documentId = some .inProgress)

include hquiet hs hread hstatus

/-- A deletion of a source that spares analyses leaves the rows of this one. -/
theorem ensures_deleteSource {projectId' sourceId : Uuid}
    (hspares : SparesAnalyses (.deleteSource projectId' sourceId) s) :
    (request (SourceService.deleteSource projectId' sourceId)).Ensures t s
      fun _ s' => AnalysisIntact base projectId documentId sources s' := by
  have hcommitted : ∀ k, s.read t k = s.committed k := (Db.idle_of_quiet hquiet t).read
  refine ensures_request protected_rollback (ensures_withUow protected_rollback ?_)
  refine Prog.Ensures.get ?_
  rcases hrow : s.read t (.source sourceId) with _ | row
  · exact hs
  change (if row.projectId = projectId' then _ else throw _ : Session (Option String)).Ensures t s _
  split
  swap
  · exact hs
  rename_i hproject
  refine ensures_listAttachedDocumentIds fun ids hids => ensures_getManyByIds fun documents hdocs =>
    ensures_assertSourcesMutable (fun _ => hs) fun hmutable => ?_
  have hattached : ∀ (id : Uuid) (document : Document),
      s.committed (.documentSource id sourceId) ≠ none →
      s.committed (.document id) = some document → document.status ≠ .inProgress := by
    intro id document hlink hdocument
    refine hmutable ⟨id, document⟩ (hdocs id document ((hids id).mpr ?_) ?_)
    · rw [hcommitted]
      exact hlink
    · rw [hcommitted]
      exact hdocument
  -- the source is none of those that the analysis reads
  have hnot : sourceId ∉ sources := by
    intro hmem
    obtain ⟨document, hdocument, hdp⟩ := hs.document
    have hin : document.status = .inProgress := by
      simpa [documentStatus, hdocument] using hstatus
    obtain ⟨row', hbase, hrp, hreads⟩ := hread sourceId hmem
    have hsame : s.committed (.source sourceId) = some row' := (hs.source hmem).trans hbase
    rw [hcommitted, hsame] at hrow
    obtain rfl := Option.some.inj hrow
    rcases hreads with hscope | hlink
    · exact hspares row' hsame hproject hscope hattached documentId document hdocument
        (hdp.trans (hrp.symm.trans hproject)) hin
    · exact hattached documentId document (hs.link hmem hlink) hdocument hin
  have honly : ∀ src ∈ [sourceId], src ∉ sources := by simpa using hnot
  refine Prog.Ensures.seq ?_ fun _ s₁ h₁ b s₂ he =>
    h₁.effect (exec_effect he) fun k _ => Stmt.spares_commit
  refine Prog.Ensures.seq (ensures_onDeleteSources honly hs) fun _ s₁ h₁ b s₂ he => ?_
  refine ensures_onDeleteSources honly (h₁.effect (exec_effect he) fun k hk => ?_)
  refine Stmt.spares_delete ?_
  rintro rfl
  exact hnot hk

/-- So does a deletion of a document. -/
theorem ensures_deleteDocument {projectId' deleted : Uuid}
    (hspares : SparesAnalyses (.deleteDocument projectId' deleted) s) :
    (request (DocumentService.deleteDocumentById projectId' deleted)).Ensures t s
      fun _ s' => AnalysisIntact base projectId documentId sources s' := by
  have hcommitted : ∀ k, s.read t k = s.committed k := (Db.idle_of_quiet hquiet t).read
  refine ensures_request protected_rollback (ensures_withUow protected_rollback ?_)
  refine ensures_getDocumentOrRaise (fun row hrow hproject => ?_) fun _ _ => hs
  rw [hcommitted] at hrow
  split
  swap
  · exact hs
  rename_i hidle
  have hidle : row.status ≠ .inProgress := by simpa [DocumentLifecycle.canDelete] using hidle
  obtain ⟨document, hdocument, hdp⟩ := hs.document
  have hin : document.status = .inProgress := by
    simpa [documentStatus, hdocument] using hstatus
  have hne : deleted ≠ documentId := by
    rintro rfl
    obtain rfl := Option.some.inj (hrow.symm.trans hdocument)
    exact hidle hin
  refine Prog.Ensures.seq ?_ fun _ s₁ h₁ => Prog.Ensures.seq ?_ fun found s₂ h₂ => ?_
  · refine ensures_attachedSources fun attached hattached => ?_
    -- no source of the document is among those that the analysis reads
    have hkeep : ∀ src ∈ sources, src ∈ attached → ∀ row : Source,
        base.committed (.source src) = some row → row.scope ≠ .document := by
      intro src hmem hlink row₁ hbase hscope
      obtain ⟨row₂, hbase₂, hrp, hreads⟩ := hread src hmem
      obtain rfl := Option.some.inj (hbase.symm.trans hbase₂)
      have hscopes : row₁.scope ≠ .project := by
        rw [hscope]
        simp
      have hnone := hspares row hrow hproject hidle src row₁ ((hs.source hmem).trans hbase) hscope
        (by rw [← hcommitted]; exact (hattached src).mp hlink) documentId document hdocument
        (hdp.trans hrp.symm) hin
      exact hs.link hmem (hreads.resolve_left hscopes) hnone
    refine Prog.Ensures.bind (ensures_deleteWhere (fun k hk row₁ hrow₁ => ?_) hs)
      (fun keys s₁ h₁ => ?_) fun _ _ h => h
    · cases k with
      | source id =>
          simp only [Bool.and_eq_false_iff, decide_eq_false_iff_not]
          by_cases hmem : id ∈ attached
          · exact .inl (hkeep id hk hmem row₁ hrow₁)
          · exact .inr hmem
      | _ => rfl
    · refine Prog.Ensures.seq (ensures_onDeleteSources (fun src hsrc hmem => ?_) h₁.1)
        fun _ _ h => h
      obtain ⟨k, hk, hid⟩ := List.mem_filterMap.mp hsrc
      cases k with
      | source id =>
          obtain rfl := Option.some.inj hid
          exact h₁.2 _ hk hmem
      | _ => cases hid
  · intro b s₂ he
    have h₂ : AnalysisIntact base projectId documentId sources s₂ := by
      refine h₁.effect (exec_effect he) fun k hk => Stmt.spares_delete ?_
      rintro rfl
      exact hne hk
    rcases b with _ | row
    · exact h₂
    · change (ForeignKeys.onDeleteDocument deleted >>= fun _ =>
        (pure (some row) : Session (Option Document))).Ensures t s₂ _
      exact Prog.Ensures.seq (ensures_onDeleteDocument hne h₂) fun _ _ h => h
  · cases found with
    | none => exact h₂
    | some row => exact fun b s₃ he => h₂.effect (exec_effect he) fun k _ => Stmt.spares_commit

end deletions

/-! ## Serial runs -/

/-- The operations of the runs. -/
def ProjectOperation.Listed : ProjectOperation → Prop
  | analysis op => op.kind ∈ [OperationKind.create, .start, .dispatch, .cancel, .finalize]
  | _ => True

/-- The listed operations are requests, but for the final task, which has a session of its own. -/
theorem quiet_of_operation {op : ProjectOperation} (hlisted : op.Listed) {t : Process} {s : AppDb}
    (hquiet : s.Quiet) : op.program.Ensures t s fun _ s' => s'.Quiet := by
  refine Prog.Ensures.quiet hquiet ?_
  cases op with
  | analysis op =>
      cases op with
      | create | start | dispatch | cancel => exact idle_request
      | finalize delivery results jobId =>
          exact Prog.Ensures.seq (J := fun s' => s'.Idle t)
            (idle_delivered (Db.idle_of_quiet hquiet t)) fun _ s' _ => idle_closing
      | _ => simp [ProjectOperation.Listed, Operation.kind] at hlisted
  | _ => exact idle_request

/-- **One listed operation leaves the rows of the analysis**, by cases on the operation. -/
theorem intact_of_operation {op : ProjectOperation} {base s : AppDb} {projectId documentId : Uuid}
    {sources : List Uuid} {t : Process} (hspares : SparesAnalyses op s) (hquiet : s.Quiet)
    (hs : AnalysisIntact base projectId documentId sources s)
    (hread : ∀ src ∈ sources, ReadByAnalysis base projectId documentId src)
    (hstatus : documentStatus s documentId = some .inProgress) :
    op.program.Ensures t s fun _ s' => AnalysisIntact base projectId documentId sources s' := by
  cases op with
  | analysis op => exact ensures_spares (fun f hf k hk => hf.spares k hk) op.sends hs
  | deleteDocument projectId' deleted =>
      exact ensures_deleteDocument hquiet hs hread hstatus hspares
  | deleteSource projectId' sourceId => exact ensures_deleteSource hquiet hs hread hstatus hspares
  | createUrlSource projectId' name url scope documentId' =>
      exact ensures_spares (fun f hf k _ => hf.spares k) (sends_request addsSource_createUrlSource) hs
  | createNoteSource maxSizeBytes projectId' name size stored scope documentId' =>
      exact ensures_spares (fun f hf k _ => hf.spares k)
        (sends_request addsSource_createStoredSource) hs
  | createFileSource maxSizeBytes projectId' name file scope documentId' =>
      exact ensures_spares (fun f hf k _ => hf.spares k)
        (sends_request addsSource_createStoredSource) hs
  | attachSources document attached =>
      exact ensures_spares (fun f hf k _ => hf.spares k) (sends_request addsSource_attachSources) hs

/-- A serial run of listed operations that satisfy `C`, after each of which the document is in
progress. -/
def RunDuringAnalysis (C : ProjectOperation → AppDb → Prop) (documentId : Uuid) :
    AppDb → AppDb → Prop :=
  Relation.ReflTransGen fun s s' =>
    SerialStep ProjectOperation.program (fun op s => op.Listed ∧ C op s) s s' ∧
      documentStatus s' documentId = some .inProgress

/-- **So does a serial run of them**, by induction on it. -/
theorem intact_of_run {base s s' : AppDb} {projectId documentId : Uuid} {sources : List Uuid}
    (hrun : RunDuringAnalysis SparesAnalyses documentId s s') (hquiet : s.Quiet)
    (hs : AnalysisIntact base projectId documentId sources s)
    (hread : ∀ src ∈ sources, ReadByAnalysis base projectId documentId src)
    (hstatus : documentStatus s documentId = some .inProgress) :
    AnalysisIntact base projectId documentId sources s' := by
  have h : s'.Quiet ∧ AnalysisIntact base projectId documentId sources s' ∧
      documentStatus s' documentId = some .inProgress := by
    induction hrun with
    | refl => exact ⟨hquiet, hs, hstatus⟩
    | tail _ hstep ih =>
        obtain ⟨hquiet, hs, hstatus⟩ := ih
        obtain ⟨hserial, hstatus'⟩ := hstep
        cases hserial with
        | run hop hprog =>
            exact ⟨(quiet_of_operation hop.1 hquiet).of_runAlone hprog,
              (intact_of_operation hop.2 hquiet hs hread hstatus).of_runAlone hprog, hstatus'⟩
        | tick n => exact ⟨hquiet, fun k hk => ⟨(hs k hk).committed, (hs k hk).writes⟩, hstatus'⟩
  exact h.2.1

/-- **Sources are frozen during an analysis**, in serial runs of operations that satisfy `C`: a
document becomes in progress when its job is dispatched, and as long as it is in progress,
`list_for_analysis` goes on to list every source that it listed when the job was dispatched. -/
def SourcesFrozen (C : ProjectOperation → AppDb → Prop) : Prop :=
  ∀ (s₀ s₁ s₂ s : AppDb) (t u : Process) (jobId documentId : Uuid) (run : EnqueueRun)
    (r : Except DomainError Unit) (document : Document) (sources : List Uuid), s₀.Quiet →
    s₀.committed (.document documentId) = some document →
    (SourceRepository.listForAnalysis document.projectId documentId).runAlone u s₀ =
      some (.ok sources, s) →
    (ProjectOperation.analysis (.dispatch jobId run)).program.runAlone t s₀ = some (r, s₁) →
    documentStatus s₁ documentId = some .inProgress → RunDuringAnalysis C documentId s₁ s₂ →
    ∀ src ∈ sources, ReadByAnalysis s₂ document.projectId documentId src

/-- **When the sources of an analysis stay**: no operation of the run is a deletion of a source
that a document in progress reads. -/
theorem analysed_sources_kept (s₀ s₁ s₂ s : AppDb) (t u : Process) (jobId documentId : Uuid)
    (run : EnqueueRun) (r : Except DomainError Unit) (document : Document) (sources : List Uuid)
    (hquiet : s₀.Quiet) (hdocument : s₀.committed (.document documentId) = some document)
    (hlist : (SourceRepository.listForAnalysis document.projectId documentId).runAlone u s₀ =
      some (.ok sources, s))
    (hdispatch : (ProjectOperation.analysis (.dispatch jobId run)).program.runAlone t s₀ =
      some (r, s₁))
    (hstatus : documentStatus s₁ documentId = some .inProgress)
    (hrun : RunDuringAnalysis SparesAnalyses documentId s₁ s₂) :
    ∀ src ∈ sources, ReadByAnalysis s₂ document.projectId documentId src := by
  intro src hsrc
  have hread : ∀ src ∈ sources, ReadByAnalysis s₀ document.projectId documentId src :=
    fun src hmem => readByAnalysis_of_mem hquiet hlist hmem
  have h₀ := analysisIntact_of_list hquiet hdocument rfl hread
  have h₁ : AnalysisIntact s₀ document.projectId documentId sources s₁ :=
    (ensures_spares (fun f hf k hk => hf.spares k hk) (Operation.dispatch jobId run).sends
      h₀).of_runAlone hdispatch
  have hlisted : (ProjectOperation.analysis (.dispatch jobId run)).Listed := by
    simp [ProjectOperation.Listed, Operation.kind]
  have hquiet₁ : s₁.Quiet := (quiet_of_operation hlisted hquiet).of_runAlone hdispatch
  have h₂ := intact_of_run hrun hquiet₁ h₁ hread hstatus
  obtain ⟨row, hrow, hproject, hreads⟩ := hread src hsrc
  exact ⟨row, (h₂.source hsrc).trans hrow, hproject, hreads.imp_right fun hlink => h₂.link hsrc hlink⟩

/-! ## Two deletions during an analysis -/

/-- A document with a job that is not dispatched yet, a source of the project, and a source of the
document that a second document reads as well. -/
def twoSources : AppDb :=
  AppDb.ofRows
    [⟨.document (9, 0), { projectId := (9, 2), name := "a.txt", format := .txt, storageKey := "a"
                          sizeBytes := 1, currentAnalysisJobId := some (9, 1) }⟩,
      ⟨.document (9, 5), { projectId := (9, 2), name := "b.txt", format := .txt, storageKey := "b"
                           sizeBytes := 1 }⟩,
      ⟨.job (9, 1), { documentId := (9, 0) }⟩,
      ⟨.source (9, 3), { projectId := (9, 2), name := "s", type := .url, url := some "u" }⟩,
      ⟨.source (9, 4), { projectId := (9, 2), name := "s", type := .url, url := some "u"
                         scope := .document }⟩,
      ⟨.documentSource (9, 0) (9, 4), ()⟩, ⟨.documentSource (9, 5) (9, 4), ()⟩] []

/-- The dispatch of the job, and an operation after it, from tests of the two states. -/
theorem exists_run_after_dispatch (op : ProjectOperation) (test test' : AppDb → Bool)
    (h : ((ProjectOperation.analysis (.dispatch (9, 1) (.accepted "t"))).program.runAlone 0
      twoSources).any (fun a => documentStatus a.2 (9, 0) = some .inProgress && test a.2 &&
        (op.program.runAlone 1 a.2).any fun b =>
          documentStatus b.2 (9, 0) = some .inProgress && test' b.2) = true) :
    ∃ r s₁ r' s₂, (ProjectOperation.analysis (.dispatch (9, 1) (.accepted "t"))).program.runAlone 0
        twoSources = some (r, s₁) ∧ documentStatus s₁ (9, 0) = some .inProgress ∧ test s₁ = true ∧
      op.program.runAlone 1 s₁ = some (r', s₂) ∧ documentStatus s₂ (9, 0) = some .inProgress ∧
        test' s₂ = true := by
  obtain ⟨⟨r, s₁⟩, hdispatch, h₁⟩ := (Option.any_eq_true _ _).mp h
  simp only [Bool.and_eq_true, decide_eq_true_eq] at h₁
  obtain ⟨⟨r', s₂⟩, hop, h₂⟩ := (Option.any_eq_true _ _).mp h₁.2
  rw [Bool.and_eq_true, decide_eq_true_eq] at h₂
  exact ⟨r, s₁, r', s₂, hdispatch, h₁.1.1, h₁.1.2, hop, h₂.1, h₂.2⟩

/-- A source that is attached to the document in progress is not deleted. -/
theorem attached_source_kept :
    ∃ s₁ s₂ : AppDb, SerialStep ProjectOperation.program
        (fun op s => op.Listed ∧ SparesAnalyses op s) s₁ s₂ ∧
      documentStatus s₁ (9, 0) = some .inProgress ∧ ReadByAnalysis s₂ (9, 2) (9, 0) (9, 4) := by
  obtain ⟨r, s₁, r', s₂, hdispatch, hst₁, hscope, hop, hst₂, -⟩ := exists_run_after_dispatch
    (.deleteSource (9, 2) (9, 4))
    (fun s => (s.committed (.source (9, 4))).any fun row : Source => row.scope = .document)
    (fun _ => true) (by decide +kernel)
  have hspares : SparesAnalyses (.deleteSource (9, 2) (9, 4)) s₁ := by
    intro row hrow _ hproject
    rw [hrow, Option.any_some, decide_eq_true_eq, hproject] at hscope
    cases hscope
  have hop₁ : (ProjectOperation.deleteSource (9, 2) (9, 4)).Listed ∧
      SparesAnalyses (.deleteSource (9, 2) (9, 4)) s₁ := ⟨trivial, hspares⟩
  have hstep : SerialStep ProjectOperation.program (fun op s => op.Listed ∧ SparesAnalyses op s)
      s₁ s₂ := .run hop₁ hop
  exact ⟨s₁, s₂, hstep, hst₁, analysed_sources_kept twoSources s₁ s₂ twoSources 0 0 (9, 1) (9, 0)
    (.accepted "t") r _ [(9, 3), (9, 4)] (fun _ => rfl) rfl rfl hdispatch hst₁
    (.single ⟨hstep, hst₂⟩) (9, 4) (by decide)⟩

/-- An operation that removes a source that the analysis lists. -/
theorem not_frozen_of_removed (op : ProjectOperation) (hlisted : op.Listed) (src : Uuid)
    (hsrc : src ∈ [((9, 3) : Uuid), (9, 4)])
    (h : ((ProjectOperation.analysis (.dispatch (9, 1) (.accepted "t"))).program.runAlone 0
      twoSources).any (fun a => documentStatus a.2 (9, 0) = some .inProgress && true &&
        (op.program.runAlone 1 a.2).any fun b => documentStatus b.2 (9, 0) = some .inProgress &&
          (b.2.committed (.source src)).isNone) = true) :
    ¬ SourcesFrozen fun _ _ => True := by
  intro hfrozen
  obtain ⟨r, s₁, r', s₂, hdispatch, hst₁, -, hop, hst₂, hnone⟩ :=
    exists_run_after_dispatch op (fun _ => true) (fun s => (s.committed (.source src)).isNone) h
  obtain ⟨row, hrow, -⟩ := hfrozen twoSources s₁ s₂ twoSources 0 0 (9, 1) (9, 0) (.accepted "t") r _
    [(9, 3), (9, 4)] (fun _ => rfl) rfl rfl hdispatch hst₁
    (.single ⟨.run ⟨hlisted, trivial⟩ hop, hst₂⟩) src hsrc
  rw [hrow] at hnone
  cases hnone

/-- `delete_source` deletes a source of the project while a document of the project is in progress. -/
theorem project_source_deleted_during_analysis : ¬ SourcesFrozen fun _ _ => True :=
  not_frozen_of_removed (.deleteSource (9, 2) (9, 3)) trivial (9, 3) (by decide) (by decide +kernel)

/-- `delete_document_by_id` of another document deletes a source that both documents have. -/
theorem shared_source_deleted_during_analysis : ¬ SourcesFrozen fun _ _ => True :=
  not_frozen_of_removed (.deleteDocument (9, 2) (9, 5)) trivial (9, 4) (by decide)
    (by decide +kernel)

end SyncBack
