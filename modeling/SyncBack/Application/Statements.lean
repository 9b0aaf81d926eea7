import SyncBack.Application.Operations

/-!
# The statements of each operation

`Sent kind f` lists, once for the whole application, the statements that an operation of the given
kind can send, with what its checks guarantee about them: which transition a status write was
checked against, on which copy, after which count. `Operation.sends` walks through every program
once and shows the list complete; what no interleaving can break follows from the list.
-/

namespace SyncBack

open Txn Session

/-- How an operation decides on the status of a document that it writes by primary key. -/
inductive DocumentDecision : OperationKind → DocumentStatus → Basis → Prop
  /-- A new analysis resets a reviewed document. -/
  | restart {kind st} (hkind : kind ∈ [OperationKind.create, .start])
      (hst : st ∈ [DocumentStatus.awaitingApproval, .ready]) :
      DocumentDecision kind .draft { documentStatus := some st }
  /-- The document follows its job, which was dispatched, failed or cancelled. -/
  | follow {kind st jobId} {job : AnalysisJobStatus}
      (hkind : kind ∈ [OperationKind.start, .dispatch, .cancel])
      (hjob : job ∈ [AnalysisJobStatus.dispatched, .failed, .cancelled])
      (hst : AnalysisJobLifecycle.documentStatusFor job false ∈ documentTransitions st) :
      DocumentDecision kind (AnalysisJobLifecycle.documentStatusFor job false)
        { currentJob := some jobId, documentStatus := some st }
  /-- The final task moves the document with its job. -/
  | finalize {st jobId n} {job : AnalysisJobStatus} (hjob : AnalysisJobLifecycle.isTerminal job = true)
      (hst : AnalysisJobLifecycle.documentStatusFor job (decide (0 < n)) ∈ documentTransitions st) :
      DocumentDecision .finalize (AnalysisJobLifecycle.documentStatusFor job (decide (0 < n)))
        { currentJob := some jobId, documentStatus := some st, pendingCount := some n }
  /-- A review without pending suggestions is finished. -/
  | finish {kind jobId} (hkind : kind ∈ [OperationKind.reviewSave, .finalizeReview]) :
      DocumentDecision kind .ready
        { currentJob := some jobId, documentStatus := some .awaitingApproval
          pendingCount := some 0 }
  /-- The review of a ready document is reset. -/
  | reset {jobId} :
      DocumentDecision .resetAnalysis .awaitingApproval
        { currentJob := some jobId, documentStatus := some .ready }

/-- The statements of an operation of the given kind. -/
inductive Sent : OperationKind → AppStmt → Prop
  | get {kind k} : Sent kind (.get k)
  | find {kind p} : Sent kind (.find p)
  | now {kind} : Sent kind .now
  | draw {kind} : Sent kind .draw
  | await {kind m} : Sent kind (.await m)
  | commit {kind} : Sent kind .commit
  | rollback {kind} : Sent kind .rollback
  | send {kind m} (hkind : kind ∈ [OperationKind.start, .dispatch]) : Sent kind (.send m)
  | insertDocument {id} {row : Document} (hst : row.status = .draft)
      (hjob : row.currentAnalysisJobId = none) : Sent .upload (.insert (.document id) row)
  | documentStatus {kind id target basis} (h : DocumentDecision kind target basis) :
      Sent kind (.update (.document id) (fun _ => true) (Document.withStatus target basis))
  | documentReopen {kind id jobId} (hkind : kind ∈ [OperationKind.patch, .resetSuggestion]) :
      Sent kind (.update (.document id) (DocumentRepository.comparesTo jobId .ready)
        (Document.withStatus .awaitingApproval
          { currentJob := jobId, documentStatus := some .ready }))
  | documentCurrent {kind id jobId} (hkind : kind ∈ [OperationKind.create, .start]) :
      Sent kind (.update (.document id) (fun _ => true) (Document.withCurrentJob jobId))
  | documentVersion {id} {p : Document → Bool} :
      Sent .reviewSave (.update (.document id) p Document.withNextVersion)
  | documentExport {kind id key} (hkind : kind ∈ [OperationKind.reviewSave, .finalizeReview]) :
      Sent kind (.update (.document id) (fun _ => true) (Document.withExportedKey key))
  | insertJob {kind id documentId key} (hkind : kind ∈ [OperationKind.create, .start]) :
      Sent kind (.insert (.job id) ({ documentId, idempotencyKey := key } : AnalysisJob))
  | jobStatus {kind id} {copy new : AnalysisJob}
      (hlegal : new.status ∈ jobTransitions copy.status)
      (hkind : (kind ∈ [OperationKind.start, .dispatch] ∧ new.status ∈ [AnalysisJobStatus.dispatched, .failed]) ∨
        (kind ∈ [OperationKind.cancel, .finalize] ∧ AnalysisJobLifecycle.isTerminal new.status = true)) :
      Sent kind (.update (.job id) (fun _ => true) (AnalysisJob.onto copy new))
  | jobColumns {kind id} {copy new : AnalysisJob} (hsame : new.status = copy.status)
      (hkind : kind ∈ [OperationKind.start, .dispatch, .finalize]) :
      Sent kind (.update (.job id) (fun _ => true) (AnalysisJob.onto copy new))
  | jobBegun {id n} :
      Sent .processSource (.update (.job id)
        (fun (row : AnalysisJob) => AnalysisJobLifecycle.isActive row.status) (AnalysisJob.begun n))
  | insertRun {jobId sourceId} :
      Sent .processSource (.insert (.jobSource jobId sourceId) ({} : AnalysisJobSource))
  | runClaim {jobId sourceId expired n token} :
      Sent .processSource (.update (.jobSource jobId sourceId)
        (AnalysisJobSourceRepository.claimable expired) (AnalysisJobSource.claimed n token))
  | runRelease {jobId sourceId token} :
      Sent .processSource (.update (.jobSource jobId sourceId)
        (AnalysisJobSourceRepository.ownedBy token) AnalysisJobSource.released)
  | runComplete {jobId sourceId token n count} :
      Sent .processSource (.update (.jobSource jobId sourceId)
        (AnalysisJobSourceRepository.ownedBy token) (AnalysisJobSource.completed n count))
  | insertSuggestion {id} {row : Suggestion} :
      Sent .processSource (.insert (.suggestion id) row)
  | suggestionDecide {kind id} {p : Suggestion → Bool} {f : Suggestion → Suggestion}
      (hkind : kind ∈ [OperationKind.reviewSave, .patch])
      (hp : ∀ row, p row = true → row.status = .pending)
      (hf : ∀ row, (f row).status ≠ .pending ∧ (f row).analysisJobId = row.analysisJobId ∧
        (f row).documentId = row.documentId) :
      Sent kind (.update (.suggestion id) p f)
  | suggestionReset {kind id} {p : Suggestion → Bool} {basis : Basis} {st}
      (hkind : kind ∈ [OperationKind.patch, .resetSuggestion, .resetAnalysis])
      (hst : basis.documentStatus = some st) (hres : DocumentLifecycle.canResetReview st = true) :
      Sent kind (.update (.suggestion id) p (SuggestionRepository.reset basis))

/-- The operations of the list delete nothing. -/
theorem Sent.deletes {kind : OperationKind} {f : AppStmt} (h : Sent kind f) :
    f.deletes = false := by
  cases h <;> rfl

/-! ## Reading programs -/

/-- The statements that change no row and hand over no message. -/
inductive Reads : AppStmt → Prop
  | get {k} : Reads (.get k)
  | find {p} : Reads (.find p)
  | now : Reads .now

/-- A list of statements that the reading ones belong to. -/
class AllowsReads (P : AppStmt → Prop) : Prop where
  reads : ∀ {f}, Reads f → P f

/-- A list of statements with those that any transaction needs. -/
class AllowsTransaction (P : AppStmt → Prop) : Prop extends AllowsReads P where
  commit : P .commit
  rollback : P .rollback

instance : AllowsReads Reads := ⟨id⟩

instance (kind : OperationKind) : AllowsTransaction (Sent kind) where
  reads h := by
    cases h
    · exact .get
    · exact .find
    · exact .now
  commit := .commit
  rollback := .rollback

section sessions

variable {α ρ : Type} {P : AppStmt → Prop}

/-- Raising what a flush met sends nothing. -/
theorem sends_flushed (o : Outcome ρ) : (flushed o).Sends P := by
  cases o <;> trivial

/-- Reading what an update matched sends nothing. -/
theorem sends_matched (o : Outcome ρ) : (matched o).Sends P := by
  cases o <;> trivial

/-- A unit of work sends what its body sends, and the commit or rollback. -/
theorem sends_withUow [AllowsTransaction P] {body : Session α} (h : body.Sends P) :
    (withUow body).Sends P :=
  h.tryCatch fun _ => (Prog.Sends.stmt AllowsTransaction.rollback).bind fun _ => trivial

/-- Closing a session at the end sends what its body sends, and the rollback. -/
theorem sends_closing [AllowsTransaction P] {body : Session α} (h : body.Sends P) :
    (closing body).Sends P :=
  (sends_withUow h).bind fun _ =>
    (Prog.Sends.stmt AllowsTransaction.rollback).bind fun _ => trivial

/-- A request sends what its body sends, and the end of its transaction. -/
theorem sends_request [AllowsTransaction P] {body : Session α} (h : body.Sends P) :
    (request body).Sends P :=
  (sends_closing h).bind fun _ => trivial

/-- A row that is held already is not read again. -/
theorem sends_getHeld {held : Option (Loaded ρ)} {read : Session (Option (Loaded ρ))}
    (h : read.Sends P) : (getHeld held read).Sends P := by
  cases held
  · exact h
  · trivial

end sessions

section reading

variable {P : AppStmt → Prop} [AllowsReads P]

/-- A read is allowed everywhere. -/
theorem sends_fetch (k : Key) : (fetch k).Sends P := Prog.Sends.stmt (AllowsReads.reads .get)

/-- So is a search. -/
theorem sends_select (p : (k : Key) → Row k → Bool) : (select p).Sends P :=
  Prog.Sends.stmt (AllowsReads.reads .find)

/-- Reading a document is a read. -/
theorem sends_getDocument (id : Uuid) : (DocumentRepository.getById id).Sends P :=
  (sends_fetch _).bind fun _ => trivial

/-- Reading a job is a read. -/
theorem sends_getJob (id : Uuid) : (AnalysisJobRepository.getById id).Sends P :=
  (sends_fetch _).bind fun _ => trivial

/-- A job is loaded under its id. -/
theorem returns_getJob (id : Uuid) :
    (AnalysisJobRepository.getById id).Returns fun found => ∀ job, found = some job → job.id = id := by
  intro row job hjob
  obtain ⟨_, -, rfl⟩ := Option.map_eq_some_iff.mp hjob
  rfl

/-- Reading a suggestion is a read. -/
theorem sends_getSuggestion (id : Uuid) : (SuggestionRepository.getById id).Sends P :=
  (sends_fetch _).bind fun _ => trivial

/-- Reading a source is a read. -/
theorem sends_getSource (id : Uuid) : (SourceRepository.getById id).Sends P :=
  (sends_fetch _).bind fun _ => trivial

/-- Asking how many suggestions a completed run has is a read. -/
theorem sends_getCompletedCount (jobId sourceId : Uuid) :
    (AnalysisJobSourceRepository.getCompletedCount jobId sourceId).Sends P :=
  (sends_fetch _).bind fun _ => trivial

/-- Choosing suggestions is a search. -/
theorem sends_selectIds (p : Uuid → Suggestion → Bool) :
    (SuggestionRepository.selectIds p).Sends P :=
  (sends_select _).bind fun _ => trivial

/-- Counting suggestions is a search. -/
theorem sends_count (jobId : Uuid) (status : SuggestionStatus) :
    (SuggestionRepository.countByAnalysisJobAndStatus jobId status).Sends P :=
  (sends_selectIds _).bind fun _ => trivial

/-- Looking for the job of an idempotency key is a search. -/
theorem sends_findByKey (documentId : Uuid) (key : Option String) :
    (AnalysisJobService.findByKey documentId key).Sends P := by
  cases key
  · trivial
  · exact (sends_select _).bind fun _ => trivial

/-- Looking for an active job is a search. -/
theorem sends_getActive (documentId : Uuid) :
    (AnalysisJobRepository.getActiveByDocumentId documentId).Sends P :=
  (sends_select _).bind fun _ => trivial

/-- `_get_document_or_raise` reads a document. -/
theorem sends_getDocumentOrRaise (projectId documentId : Uuid) :
    (getDocumentOrRaise projectId documentId).Sends P := by
  refine (sends_getDocument _).bind fun found => ?_
  split
  · split <;> trivial
  · trivial

/-- A document is loaded under its id. -/
theorem returns_getDocumentOrRaise {projectId documentId : Uuid} :
    (getDocumentOrRaise projectId documentId).Returns fun d => d.id = documentId := by
  refine Prog.Returns.bind (Q := fun found => ∀ d, found = some d → d.id = documentId) ?_
    fun found hfound => ?_
  · intro row d hd
    obtain ⟨_, -, rfl⟩ := Option.map_eq_some_iff.mp hd
    rfl
  · split
    · split
      · exact hfound _ rfl
      · trivial
    · trivial

/-- The document that the caller holds, or a read of it. -/
theorem sends_documentOf (documentId : Uuid) (held : Option (Loaded Document)) :
    (AnalysisJobService.documentOf documentId held).Sends P := by
  refine (sends_getHeld (sends_getDocument _)).bind fun found => ?_
  cases found <;> trivial

/-- The sources of a run are found by a search. -/
theorem sends_listForAnalysis (projectId documentId : Uuid) :
    (SourceRepository.listForAnalysis projectId documentId).Sends P :=
  (sends_select _).bind fun _ => (sends_select _).bind fun _ => trivial

/-- Asking for the time is allowed everywhere. -/
theorem sends_now : (Session.now).Sends P := Prog.Sends.stmt (AllowsReads.reads .now)

end reading

/-! ## Writing methods -/

section writing

variable {P : AppStmt → Prop}

/-- A commit is allowed where transactions may end. -/
theorem sends_commit [AllowsTransaction P] : (Session.commit).Sends P :=
  Prog.Sends.stmt AllowsTransaction.commit

/-- So is a rollback. -/
theorem sends_rollback [AllowsTransaction P] : (Session.rollback).Sends P :=
  Prog.Sends.stmt AllowsTransaction.rollback

/-- An update sends that update. -/
theorem sends_update {k : Key} {p : Row k → Bool} {f : Row k → Row k} (h : P (.update k p f)) :
    (Session.update k p f).Sends P :=
  Prog.Sends.stmt h

/-- A document status is flushed with the basis of the decision. -/
theorem sends_updateStatus {document : Loaded Document} {status : DocumentStatus} {basis : Basis}
    (h : status ≠ document.row.status →
      P (.update (.document document.id) (fun _ => true) (Document.withStatus status basis))) :
    (DocumentRepository.updateStatus document status basis).Sends P := by
  unfold DocumentRepository.updateStatus
  split
  · trivial
  · rename_i hne
    exact (sends_update (h hne)).bind fun o => (sends_flushed o).bind fun _ => trivial

/-- The transition is checked before the status is flushed. -/
theorem sends_setDocumentStatus {document : Loaded Document} {target : DocumentStatus}
    {basis : Basis}
    (h : target ≠ document.row.status → target ∈ documentTransitions document.row.status →
      P (.update (.document document.id) (fun _ => true) (Document.withStatus target basis))) :
    (AnalysisJobService.setDocumentStatus document target basis).Sends P := by
  unfold AnalysisJobService.setDocumentStatus documentTransition
  rcases htr : DocumentLifecycle.transition document.row.status target with _ | status
  · trivial
  · obtain ⟨rfl, hmem⟩ := DocumentLifecycle.transition_eq_some.mp htr
    exact sends_updateStatus fun hne => h hne hmem

/-- A new status is written to the document that was given. -/
theorem returns_updateStatus {document : Loaded Document} {status : DocumentStatus}
    {basis : Basis} :
    (DocumentRepository.updateStatus document status basis).Returns fun d => d.id = document.id := by
  unfold DocumentRepository.updateStatus
  split
  · exact rfl
  · exact Prog.Returns.bind (Q := fun _ => True) (Prog.Returns.any fun _ => trivial) fun _ _ =>
      Prog.Returns.bind (Q := fun _ => True) (Prog.Returns.any fun _ => trivial) fun _ _ => rfl

/-- `_set_document_status` writes to the document that was given. -/
theorem returns_setDocumentStatus {document : Loaded Document} {target : DocumentStatus}
    {basis : Basis} :
    (AnalysisJobService.setDocumentStatus document target basis).Returns
      fun d => d.id = document.id :=
  Prog.Returns.bind (Q := fun _ => True) (Prog.Returns.any fun _ => trivial) fun _ _ =>
    returns_updateStatus

/-- A flush of a loaded job sends the update of the columns that changed. -/
theorem sends_flushJob {job : Loaded AnalysisJob} {new : AnalysisJob}
    (h : P (.update (.job job.id) (fun _ => true) (AnalysisJob.onto job.row new))) :
    (flushJob job new).Sends P := by
  unfold flushJob
  split
  · trivial
  · exact (sends_update h).bind fun o => (sends_flushed o).bind fun _ => trivial

/-- A flush returns the object that it flushed. -/
theorem returns_flushJob {job : Loaded AnalysisJob} {new : AnalysisJob} :
    (flushJob job new).Returns fun job' => job'.id = job.id := by
  unfold flushJob
  split
  · exact rfl
  · exact Prog.Returns.bind (Q := fun _ => True) (Prog.Returns.any fun _ => trivial) fun _ _ =>
      Prog.Returns.bind (Q := fun _ => True) (Prog.Returns.any fun _ => trivial) fun _ _ => rfl

/-- A new status of a job is one update, to a row with that status. -/
theorem sends_jobUpdateStatus [AllowsReads P] {job : Loaded AnalysisJob}
    {status : AnalysisJobStatus} {errorCode errorMessage : Option String}
    (h : ∀ new : AnalysisJob, new.status = status →
      P (.update (.job job.id) (fun _ => true) (AnalysisJob.onto job.row new))) :
    (AnalysisJobRepository.updateStatus job status errorCode errorMessage).Sends P :=
  sends_now.bind fun _ => sends_flushJob (h _ rfl)

/-- Storing the task's identifier is one update that keeps the status. -/
theorem sends_setCeleryTaskId {job : Loaded AnalysisJob} {taskId : String}
    (h : ∀ new : AnalysisJob, new.status = job.row.status →
      P (.update (.job job.id) (fun _ => true) (AnalysisJob.onto job.row new))) :
    (AnalysisJobRepository.setCeleryTaskId job taskId).Sends P :=
  sends_flushJob (h _ rfl)

/-- The job is flushed after a legal transition of the copy; the document follows it. -/
theorem sends_setJobStatus [AllowsReads P] {job : Loaded AnalysisJob} {document : Loaded Document}
    {target : AnalysisJobStatus} {errorCode errorMessage : Option String}
    (hjob : target ∈ jobTransitions job.row.status → ∀ new : AnalysisJob, new.status = target →
      P (.update (.job job.id) (fun _ => true) (AnalysisJob.onto job.row new)))
    (hdocument : AnalysisJobLifecycle.documentStatusFor target false ∈
        documentTransitions document.row.status →
      P (.update (.document document.id) (fun _ => true)
        (Document.withStatus (AnalysisJobLifecycle.documentStatusFor target false)
          { currentJob := some job.id, documentStatus := some document.row.status }))) :
    (AnalysisJobService.setJobStatus job document target errorCode errorMessage).Sends P := by
  unfold AnalysisJobService.setJobStatus jobTransition
  rcases htr : AnalysisJobLifecycle.transition job.row.status target with _ | status
  · trivial
  obtain ⟨rfl, hlegal⟩ := AnalysisJobLifecycle.transition_eq_some.mp htr
  refine (sends_jobUpdateStatus (hjob hlegal)).bind_of_returns
    (Prog.Returns.bind (Q := fun _ => True) (Prog.Returns.any fun _ => trivial)
      fun _ _ => returns_flushJob) fun job' hid => ?_
  rw [hid]
  split
  · exact (sends_setDocumentStatus fun _ hmem => hdocument hmem).bind fun _ => trivial
  · trivial

/-- The job that `_set_job_status` returns is the one that it was given. -/
theorem returns_setJobStatus {job : Loaded AnalysisJob} {document : Loaded Document}
    {target : AnalysisJobStatus} {errorCode errorMessage : Option String} :
    (AnalysisJobService.setJobStatus job document target errorCode errorMessage).Returns
      fun r => r.1.id = job.id := by
  refine Prog.Returns.bind (Q := fun _ => True) (Prog.Returns.any fun _ => trivial) fun _ _ =>
    Prog.Returns.bind (Q := fun job' => job'.id = job.id)
      (Prog.Returns.bind (Q := fun _ => True) (Prog.Returns.any fun _ => trivial)
        fun _ _ => returns_flushJob) fun job' hid => ?_
  split
  · exact Prog.Returns.bind (Q := fun _ => True) (Prog.Returns.any fun _ => trivial) fun _ _ => hid
  · exact hid

/-- The rows of a snapshot are rewritten one by one. -/
theorem sends_updateRows {p : Uuid → Suggestion → Bool} {f : Uuid → Suggestion → Suggestion}
    (h : ∀ id, P (.update (.suggestion id) (p id) (f id))) :
    ∀ ids, (SuggestionRepository.updateRows p f ids).Sends P
  | [] => trivial
  | id :: rest => (sends_update (h id)).bind fun o => (sends_matched o).bind fun _ =>
      (sends_updateRows h rest).bind fun _ => trivial

/-- A bulk update is a search and one update for each suggestion that was found. -/
theorem sends_updateWhere [AllowsReads P] {p : Uuid → Suggestion → Bool}
    {f : Uuid → Suggestion → Suggestion} (h : ∀ id, P (.update (.suggestion id) (p id) (f id))) :
    (SuggestionRepository.updateWhere p f).Sends P :=
  (sends_selectIds _).bind fun ids => sends_updateRows h ids

/-- The decisions of a review are updates of pending suggestions. -/
theorem sends_bulkUpdateStatus [AllowsReads P] {decisions : ReviewDecisions}
    (h : ∀ id now, P (.update (.suggestion id) (SuggestionRepository.decidable decisions id)
      (SuggestionRepository.decided decisions now id))) :
    (SuggestionRepository.bulkUpdateStatus decisions).Sends P := by
  unfold SuggestionRepository.bulkUpdateStatus
  split
  · trivial
  · exact sends_now.bind fun n => (sends_updateWhere fun id => h id n).bind fun _ => trivial

/-- A decision about all suggestions is an update of the pending ones of the job. -/
theorem sends_bulkDecideAll [AllowsReads P] {status : SuggestionStatus} {jobId userId : Uuid}
    (h : ∀ id (f : Suggestion → Suggestion), (∀ row, (f row).status = status ∧
        (f row).analysisJobId = row.analysisJobId ∧ (f row).documentId = row.documentId) →
      P (.update (.suggestion id)
        (fun (row : Suggestion) => row.analysisJobId = jobId && row.status = .pending) f)) :
    (SuggestionRepository.bulkDecideAll status jobId userId).Sends P :=
  sends_now.bind fun _ => sends_updateWhere fun id => h id _ fun _ => ⟨rfl, rfl, rfl⟩

/-- A reset is an update of suggestions of the job. -/
theorem sends_resetToPending [AllowsReads P] {jobId : Uuid} {ids : Option (List Uuid)}
    {basis : Basis}
    (h : ∀ id (p : Suggestion → Bool), (∀ row, p row = true → row.analysisJobId = jobId) →
      P (.update (.suggestion id) p (SuggestionRepository.reset basis))) :
    (SuggestionRepository.resetToPending jobId ids basis).Sends P := by
  unfold SuggestionRepository.resetToPending
  split
  · trivial
  · refine sends_updateWhere fun id => h id _ fun row hp => ?_
    simp only [Bool.and_eq_true, decide_eq_true_eq] at hp
    exact hp.1.1
  · refine sends_updateWhere fun id => h id _ fun row hp => ?_
    simp only [Bool.and_eq_true, decide_eq_true_eq] at hp
    exact hp.1

end writing

/-- What is decided was pending. -/
theorem pending_of_decidable {decisions : ReviewDecisions} {id : Uuid} {row : Suggestion}
    (h : SuggestionRepository.decidable decisions id row = true) : row.status = .pending := by
  simp only [SuggestionRepository.decidable, Bool.and_eq_true, decide_eq_true_eq] at h
  exact h.1.1.2

/-- A decided row stays with its job and its document. -/
theorem decided_row {decisions : ReviewDecisions} {now : ℕ} {id : Uuid} {row : Suggestion} :
    (SuggestionRepository.decided decisions now id row).status ≠ .pending ∧
      (SuggestionRepository.decided decisions now id row).analysisJobId = row.analysisJobId ∧
      (SuggestionRepository.decided decisions now id row).documentId = row.documentId := by
  refine ⟨?_, rfl, rfl⟩
  simp only [SuggestionRepository.decided]
  split <;> simp

/-- The decisions of a save, or of a change of listed suggestions. -/
theorem Sent.decided {kind : OperationKind} {decisions : ReviewDecisions} {id : Uuid} {now : ℕ}
    (hkind : kind ∈ [OperationKind.reviewSave, .patch]) :
    Sent kind (.update (.suggestion id) (SuggestionRepository.decidable decisions id)
      (SuggestionRepository.decided decisions now id)) :=
  .suggestionDecide hkind (fun _ => pending_of_decidable) fun _ => decided_row

/-- `_set_job_status` for the three kinds that use it. -/
theorem sends_setJobStatus_sent {kind : OperationKind} {job : Loaded AnalysisJob}
    {document : Loaded Document} {target : AnalysisJobStatus} {errorCode errorMessage : Option String}
    (hkind : kind ∈ [OperationKind.start, .dispatch] ∧ target ∈ [AnalysisJobStatus.dispatched, .failed] ∨
      kind = .cancel ∧ target = .cancelled) :
    (AnalysisJobService.setJobStatus job document target errorCode errorMessage).Sends
      (Sent kind) := by
  refine sends_setJobStatus (fun hlegal new hnew => ?_) fun hmem => ?_
  · subst hnew
    refine .jobStatus hlegal (hkind.imp id ?_)
    rintro ⟨rfl, hcancelled⟩
    exact ⟨by simp, by rw [hcancelled]; rfl⟩
  · refine .documentStatus (.follow ?_ ?_ hmem)
    · rcases hkind with ⟨h, -⟩ | ⟨rfl, -⟩
      · exact List.mem_append_left [OperationKind.cancel] h
      · simp
    · rcases hkind with ⟨-, h⟩ | ⟨-, rfl⟩
      · exact List.mem_append_left [AnalysisJobStatus.cancelled] h
      · simp

/-! ## The operations of the job service -/

section jobs

variable {kind : OperationKind} {P : AppStmt → Prop}

/-- A reviewed document becomes a draft again. -/
theorem sends_restart {document : Loaded Document}
    (h : document.row.status ≠ .draft → P (.update (.document document.id) (fun _ => true)
      (Document.withStatus .draft { documentStatus := some document.row.status }))) :
    Prog.Sends P
      (if document.row.status = .draft then (pure document : Session (Loaded Document))
      else AnalysisJobService.setDocumentStatus document .draft
        { documentStatus := some document.row.status }) := by
  split
  · trivial
  · rename_i hne
    exact sends_setDocumentStatus fun _ _ => h hne

/-- A document that can be analysed again has been reviewed. -/
theorem Sent.restart {document : Loaded Document} (hkind : kind ∈ [OperationKind.create, .start])
    (hst : DocumentLifecycle.canStartAnalysis document.row.status = true)
    (hne : document.row.status ≠ .draft) :
    Sent kind (.update (.document document.id) (fun _ => true)
      (Document.withStatus .draft { documentStatus := some document.row.status })) := by
  refine .documentStatus (.restart hkind ?_)
  simpa [DocumentLifecycle.canStartAnalysis, hne] using hst

/-- The document that goes on is the one that was loaded. -/
theorem returns_restart {document : Loaded Document} :
    Prog.Returns (fun d => d.id = document.id)
      (if document.row.status = .draft then (pure document : Session (Loaded Document))
      else AnalysisJobService.setDocumentStatus document .draft
        { documentStatus := some document.row.status }) := by
  split
  · exact rfl
  · exact returns_setDocumentStatus

/-- A job is created by drawing an identifier and one insertion. -/
theorem sends_createForDocument {document : Loaded Document} {status : AnalysisJobStatus}
    {key : Option String} (hdraw : P .draw)
    (hinsert : ∀ id,
      P (.insert (.job id) { documentId := document.id, status, idempotencyKey := key })) :
    (AnalysisJobRepository.createForDocument document status key).Sends P := by
  refine (Prog.Sends.stmt hdraw).bind fun id => (Prog.Sends.stmt (hinsert id)).bind fun b => ?_
  split <;> trivial

/-- The current job of a document is set by one update. -/
theorem sends_setCurrentJob {document : Loaded Document} {jobId : Option Uuid}
    (h : P (.update (.document document.id) (fun _ => true) (Document.withCurrentJob jobId))) :
    (DocumentRepository.setCurrentJob document jobId).Sends P := by
  unfold DocumentRepository.setCurrentJob
  split
  · trivial
  · exact (sends_update h).bind fun o => (sends_flushed o).bind fun _ => trivial

/-- Storing a job sends what a creation or a start may send. -/
theorem sends_storeJob {document : Loaded Document} {key : Option String}
    (hkind : kind ∈ [OperationKind.create, .start])
    (hst : DocumentLifecycle.canStartAnalysis document.row.status = true) :
    (AnalysisJobService.storeJob document key).Sends (Sent kind) :=
  (sends_restart (Sent.restart hkind hst)).bind fun _ =>
    (sends_createForDocument .draw fun _ => .insertJob hkind).bind fun _ =>
      (sends_setCurrentJob (.documentCurrent hkind)).bind fun _ => sends_commit.bind fun _ => trivial

/-- Telling why a job was not created needs reads and a rollback. -/
theorem sends_raiseCreateConflict [AllowsTransaction P] {documentId : Uuid} {key : Option String} :
    (AnalysisJobService.raiseCreateConflict documentId key).Sends P := by
  refine (sends_withUow (sends_findByKey _ _)).bind fun existing => ?_
  split <;> trivial

/-- `create_job` sends the statements of a creation, as part of a start too. -/
theorem sends_createJob {projectId documentId : Uuid} {key : Option String} {force : Bool}
    (hkind : kind ∈ [OperationKind.create, .start]) :
    (AnalysisJobService.createJob projectId documentId key force).Sends (Sent kind) := by
  unfold AnalysisJobService.createJob AnalysisJobService.createJobOnce
  refine (Prog.Sends.tryCatch (sends_withUow ?_) fun e => ?_).bind fun outcome => ?_
  · refine (sends_getDocumentOrRaise _ _).bind fun document =>
      (sends_findByKey _ _).bind fun existing => ?_
    split
    · trivial
    · split
      · rename_i hst
        refine (sends_getActive _).bind fun active => ?_
        split
        · split <;> trivial
        · split
          · trivial
          · exact sends_storeJob hkind hst
      · trivial
  · split
    · exact sends_raiseCreateConflict
    · trivial
  · split <;> trivial

/-- `dispatch_job` sends the statements of a dispatch, as part of a start too. -/
theorem sends_dispatchJob {job : Loaded AnalysisJob} {held : Option (Loaded Document)}
    {run : EnqueueRun} (hkind : kind ∈ [OperationKind.start, .dispatch]) :
    (AnalysisJobService.dispatchJob job held run).Sends (Sent kind) := by
  have hcolumns : kind ∈ [OperationKind.start, .dispatch, .finalize] :=
    List.mem_append_left [OperationKind.finalize] hkind
  unfold AnalysisJobService.dispatchJob
  split
  · refine (sends_withUow ?_).bind fun dispatched => ?_
    · exact (sends_documentOf _ _).bind fun document => (sends_listForAnalysis _ _).bind fun _ =>
        (sends_setJobStatus_sent (.inl ⟨hkind, by simp⟩)).bind fun (_, _) => sends_commit.bind fun _ => trivial
    · obtain ⟨job', document', sourceIds⟩ := dispatched
      dsimp only
      split
      · refine (Prog.Sends.stmt (Sent.send hkind)).bind fun _ => sends_withUow ?_
        exact (sends_setCeleryTaskId fun _ hsame => .jobColumns hsame hcolumns).bind fun _ => sends_commit.bind fun _ => trivial
      · refine Prog.Sends.bind ?_ fun _ => sends_withUow ?_
        · split
          · exact Prog.Sends.stmt (Sent.send hkind)
          · trivial
        · exact (sends_documentOf _ _).bind fun _ =>
            (sends_setJobStatus_sent (.inl ⟨hkind, by simp⟩)).bind fun (_, _) => sends_commit.bind fun _ => trivial
  · trivial

/-- `cancel_job` sends the statements of a cancellation. -/
theorem sends_cancelJob {projectId documentId jobId : Uuid} {held : Bool} :
    (AnalysisJobService.cancelJob projectId documentId jobId held).Sends (Sent .cancel) := by
  refine sends_withUow (Prog.Sends.bind ?_ fun found => ?_)
  · refine (sends_getDocumentOrRaise _ _).bind fun document => (sends_getJob _).bind fun job => ?_
    split
    · split <;> trivial
    · trivial
  · obtain ⟨document, job⟩ := found
    dsimp only
    split
    · trivial
    · split
      · exact (sends_documentOf _ _).bind fun _ =>
          (sends_setJobStatus_sent (.inr ⟨rfl, rfl⟩)).bind fun (_, _) => sends_commit.bind fun _ => trivial
      · trivial

/-- Looking for a key in a transaction of its own sends no change. -/
theorem sends_findJobByKey [AllowsTransaction P] {projectId documentId : Uuid} {key : String} :
    (AnalysisJobService.findJobByIdempotencyKey projectId documentId key).Sends P := by
  refine sends_withUow ((sends_getDocument _).bind fun found => ?_)
  split
  · split
    · exact (sends_select _).bind fun _ => trivial
    · trivial
  · trivial

/-- A start is a creation and a dispatch. -/
theorem sends_startAnalysisJob {projectId documentId : Uuid} {key : Option String}
    {force held : Bool} {run : EnqueueRun} :
    (AnalysisJobService.startAnalysisJob projectId documentId key force held run).Sends
      (Sent .start) := by
  unfold AnalysisJobService.startAnalysisJob
  refine Prog.Sends.bind ?_ fun existing => ?_
  · split
    · split
      · trivial
      · exact sends_findJobByKey
    · trivial
  · split
    · trivial
    · exact (sends_createJob (by simp)).bind fun (_, _) => sends_dispatchJob (by simp)

/-- `reset_analysis` sends the statements of a reset. -/
theorem sends_resetAnalysis {projectId documentId : Uuid} :
    (AnalysisJobService.resetAnalysis projectId documentId).Sends (Sent .resetAnalysis) := by
  refine sends_withUow ((sends_getDocumentOrRaise _ _).bind fun document => ?_)
  split
  · rename_i hres
    split
    · trivial
    · refine (sends_resetToPending fun _ _ _ => .suggestionReset (by simp) rfl hres).bind fun _ =>
        (sends_setDocumentStatus fun hne hmem => .documentStatus ?_).bind fun _ => sends_commit.bind fun _ => trivial
      have hready : document.row.status = .ready := by
        rcases hst : document.row.status with _ | _ | _ | _ <;>
          simp_all [DocumentLifecycle.canResetReview]
      rw [hready]
      exact .reset
  · trivial

end jobs

/-! ## The operations of a review -/

section review

variable {P : AppStmt → Prop}

/-- Finishing a review is one update, made ready on the strength of the count. -/
theorem sends_finishReview {document : Loaded Document} {pendingCount : ℕ}
    (h : P (.update (.document document.id) (fun _ => true) (Document.withStatus .ready
      { SuggestionService.basisOf document with pendingCount := some pendingCount }))) :
    (SuggestionService.finishReview document pendingCount).Sends P := by
  unfold SuggestionService.finishReview documentTransition
  rcases htr : DocumentLifecycle.transition document.row.status .ready with _ | status
  · trivial
  · obtain ⟨rfl, -⟩ := DocumentLifecycle.transition_eq_some.mp htr
    exact sends_updateStatus fun _ => h

/-- An export stores the exported key and nothing else. -/
theorem sends_exportIfAsked [AllowsTransaction P] {document : Loaded Document}
    {exporting : Option ExportRun}
    (h : ∀ key, P (.update (.document document.id) (fun _ => true) (Document.withExportedKey key))) :
    (SuggestionService.exportIfAsked document exporting).Sends P := by
  rcases exporting with _ | _ | _
  · trivial
  · trivial
  · refine Prog.Sends.tryCatch (sends_withUow (Prog.Sends.bind ?_ fun _ => sends_commit.bind
      fun _ => trivial)) fun _ => trivial
    unfold DocumentRepository.updateExportedKey
    split
    · trivial
    · exact (sends_update (h _)).bind fun o => (sends_flushed o).bind fun _ => trivial

/-- What a session has read in the copy of a document is the same in another copy. -/
def SameReading (d d' : Loaded Document) : Prop :=
  d'.id = d.id ∧ d'.row.status = d.row.status ∧
    d'.row.currentAnalysisJobId = d.row.currentAnalysisJobId

/-- A document is what it was read as. -/
theorem SameReading.refl (d : Loaded Document) : SameReading d d := ⟨rfl, rfl, rfl⟩

/-- Reading again what was read again. -/
theorem SameReading.trans {d d' d'' : Loaded Document} (h : SameReading d d')
    (h' : SameReading d' d'') : SameReading d d'' :=
  ⟨h'.1.trans h.1, h'.2.1.trans h.2.1, h'.2.2.trans h.2.2⟩

/-- The export leaves the status and the current job of the loaded document alone. -/
theorem returns_exportIfAsked {document : Loaded Document} {exporting : Option ExportRun} :
    (SuggestionService.exportIfAsked document exporting).Returns (SameReading document) := by
  rcases exporting with _ | _ | _
  · exact SameReading.refl document
  · trivial
  · refine Prog.Returns.tryCatch (Prog.Returns.tryCatch (Prog.Returns.bind
      (Q := SameReading document) ?_ fun d hd => ?_) fun _ => ?_) fun _ => trivial
    · unfold DocumentRepository.updateExportedKey
      split
      · exact SameReading.refl document
      · exact Prog.Returns.bind (Q := fun _ => True) (Prog.Returns.any fun _ => trivial) fun _ _ =>
          Prog.Returns.bind (Q := fun _ => True) (Prog.Returns.any fun _ => trivial) fun _ _ =>
            ⟨rfl, rfl, rfl⟩
    · exact fun _ => hd
    · exact fun _ => trivial

/-- The checks before a review is changed return what they checked. -/
theorem sends_assertAwaitingApproval {document : Loaded Document} {β : Type}
    {rest : Unit → Session β}
    (h : document.row.status = .awaitingApproval → (rest ()).Sends P) :
    (SuggestionService.assertAwaitingApproval document >>= rest).Sends P := by
  unfold SuggestionService.assertAwaitingApproval
  split
  · rename_i hst
    exact h (by simpa [DocumentLifecycle.canReview] using hst)
  · trivial

/-- What follows the check runs on a document whose decisions may be reset. -/
theorem sends_assertDecisionsResettable {document : Loaded Document} {β : Type}
    {rest : Unit → Session β}
    (h : DocumentLifecycle.canResetReview document.row.status = true → (rest ()).Sends P) :
    (SuggestionService.assertDecisionsResettable document >>= rest).Sends P := by
  unfold SuggestionService.assertDecisionsResettable
  split
  · rename_i hst
    exact h hst
  · trivial

/-- What follows the check runs with the document's current job. -/
theorem sends_assertHasActiveJob {document : Loaded Document} {β : Type} {rest : Uuid → Session β}
    (h : ∀ jobId, document.row.currentAnalysisJobId = some jobId → (rest jobId).Sends P) :
    (SuggestionService.assertHasActiveJob document >>= rest).Sends P := by
  unfold SuggestionService.assertHasActiveJob
  split
  · rename_i jobId hjob
    exact h jobId hjob
  · trivial

/-- Reopening a review is one compare-and-set of the status. -/
theorem sends_reopenReview {document : Loaded Document}
    (h : P (.update (.document document.id)
      (DocumentRepository.comparesTo document.row.currentAnalysisJobId .ready)
      (Document.withStatus .awaitingApproval
        { currentJob := document.row.currentAnalysisJobId, documentStatus := some .ready }))) :
    (SuggestionService.reopenReview document).Sends P := by
  unfold SuggestionService.reopenReview
  split
  · rename_i hst
    rw [hst]
    change (DocumentRepository.compareAndSetStatus document.id document.row.currentAnalysisJobId
      .ready .awaitingApproval >>= _).Sends P
    refine Prog.Sends.bind ?_ fun reopened => ?_
    · unfold DocumentRepository.compareAndSetStatus
      exact (sends_update h).bind fun o => (sends_matched o).bind fun _ => trivial
    · split <;> trivial
  · trivial

/-- Reading a suggestion for a document sends no change. -/
theorem sends_getSuggestionForDocument [AllowsReads P] {document : Loaded Document}
    {suggestionId : Uuid} :
    (SuggestionService.getSuggestionForDocument document suggestionId).Sends P := by
  refine (sends_getSuggestion _).bind fun found => ?_
  split
  · split <;> trivial
  · trivial

/-- `reset_suggestion` sends a reset of one suggestion and the reopening of its review. -/
theorem sends_resetSuggestion {projectId documentId suggestionId : Uuid} :
    (SuggestionService.resetSuggestion projectId documentId suggestionId).Sends
      (Sent .resetSuggestion) := by
  refine sends_withUow ((sends_getDocumentOrRaise _ _).bind fun document =>
    sends_assertDecisionsResettable fun hres =>
      sends_getSuggestionForDocument.bind fun suggestion => ?_)
  split
  · trivial
  · refine (sends_reopenReview (.documentReopen (by simp))).bind fun _ =>
      Prog.Sends.bind ?_ fun updated => ?_
    · exact (sends_update (.suggestionReset (by simp) rfl hres)).bind fun o =>
        (sends_matched o).bind fun _ => trivial
    · split
      · exact sends_commit.bind fun _ => trivial
      · trivial

/-- A decision about pending suggestions updates rows that were pending and are not any more. -/
theorem sends_decidePending [AllowsReads P] {documentId jobId userId : Uuid}
    {target : SuggestionStatus} {ids : Option (List Uuid)} {filter : Option PatchFilter}
    (h : ∀ id (p : Suggestion → Bool) (f : Suggestion → Suggestion),
      (∀ row, p row = true → row.status = .pending) →
      (∀ row, (f row).status ≠ .pending ∧ (f row).analysisJobId = row.analysisJobId ∧
        (f row).documentId = row.documentId) → P (.update (.suggestion id) p f)) :
    (SuggestionService.decidePending documentId jobId userId target ids filter).Sends P := by
  have hall : ∀ {status : SuggestionStatus}, status ≠ .pending →
      (SuggestionRepository.bulkDecideAll status jobId userId).Sends P := by
    intro status hne
    refine sends_bulkDecideAll fun id f hf => h id _ f (fun row hp => ?_)
      fun row => ⟨(hf row).1 ▸ hne, (hf row).2⟩
    simp only [Bool.and_eq_true, decide_eq_true_eq] at hp
    exact hp.2
  unfold SuggestionService.decidePending
  split
  · refine (sends_bulkUpdateStatus fun id now => ?_).bind fun updated => ?_
    · exact h id _ _ (fun row => pending_of_decidable) fun row => decided_row
    · split <;> trivial
  · split
    · trivial
    · split
      · exact hall (by decide)
      · exact hall (by decide)

/-- The reset of many suggestions, as `patch_suggestions` asks for it. -/
theorem sends_resetMany [AllowsReads P] {jobId : Uuid} {ids : Option (List Uuid)}
    {filter : Option PatchFilter} {basis : Basis}
    (h : ∀ id (p : Suggestion → Bool), (∀ row, p row = true → row.analysisJobId = jobId) →
      P (.update (.suggestion id) p (SuggestionRepository.reset basis))) :
    (SuggestionService.resetToPending jobId ids filter basis).Sends P := by
  unfold SuggestionService.resetToPending
  split
  · split
    · trivial
    · exact sends_resetToPending h
  · refine (sends_resetToPending h).bind fun resetIds => ?_
    split <;> trivial

/-- `patch_suggestions` sends decisions or resets, and the reopening of a review. -/
theorem sends_patchSuggestions {projectId documentId userId : Uuid} {target : SuggestionStatus}
    {ids : Option (List Uuid)} {filter : Option PatchFilter} :
    (SuggestionService.patchSuggestions projectId documentId userId target ids filter).Sends
      (Sent .patch) := by
  unfold SuggestionService.patchSuggestions
  split
  · trivial
  refine sends_withUow ((sends_getDocumentOrRaise _ _).bind fun document => ?_)
  split
  · refine sends_assertDecisionsResettable fun hres => sends_assertHasActiveJob fun jobId _ =>
      (sends_resetMany fun _ _ _ => .suggestionReset (by simp) rfl hres).bind fun updatedIds =>
        Prog.Sends.bind ?_ fun _ => sends_commit.bind fun _ => trivial
    split
    · trivial
    · exact sends_reopenReview (.documentReopen (by simp))
  · exact sends_assertAwaitingApproval fun _ => sends_assertHasActiveJob fun jobId _ =>
      (sends_decidePending fun _ _ _ hp hf => .suggestionDecide (by simp) hp hf).bind fun _ =>
        sends_commit.bind fun _ => trivial

/-- The statement that finishes the review of a loaded document. -/
def finishes (document : Loaded Document) (jobId : Uuid) : AppStmt :=
  .update (.document document.id) (fun _ => true) (Document.withStatus .ready
    { currentJob := some jobId, documentStatus := some .awaitingApproval, pendingCount := some 0 })

/-- A copy that reads the same finishes the review by the same statement. -/
theorem sends_finishReview_of_sameReading {document d : Loaded Document} {jobId : Uuid}
    (hd : SameReading document d) (hst : document.row.status = .awaitingApproval)
    (hjob : document.row.currentAnalysisJobId = some jobId) (h : P (finishes document jobId)) :
    (SuggestionService.finishReview d 0).Sends P := by
  refine sends_finishReview ?_
  rw [SuggestionService.basisOf, hd.1, hd.2.1, hd.2.2, hst, hjob]
  exact h

/-- Finalizing sends the export's update and the finishing one, from a review in progress. -/
theorem sends_finalizeLoaded [AllowsTransaction P] {document : Loaded Document}
    {exporting : Option ExportRun}
    (hexport : ∀ key,
      P (.update (.document document.id) (fun _ => true) (Document.withExportedKey key)))
    (hfinish : ∀ jobId, document.row.status = .awaitingApproval →
      document.row.currentAnalysisJobId = some jobId → P (finishes document jobId)) :
    (SuggestionService.finalizeLoaded document exporting).Sends P := by
  refine sends_assertAwaitingApproval fun hst => sends_assertHasActiveJob fun jobId hjob =>
    (sends_count _ _).bind fun pending => ?_
  split
  · rename_i hzero
    refine (sends_exportIfAsked hexport).bind_of_returns returns_exportIfAsked fun d hd => ?_
    rw [hzero]
    exact (sends_finishReview_of_sameReading hd hst hjob (hfinish jobId hst hjob)).bind fun _ =>
      sends_commit.bind fun _ => trivial
  · trivial

/-- `finalize_review` sends the statements of a finalization. -/
theorem sends_finalizeReview {projectId documentId : Uuid} {exporting : Option ExportRun} :
    (SuggestionService.finalizeReview projectId documentId exporting).Sends
      (Sent .finalizeReview) :=
  sends_withUow ((sends_getDocumentOrRaise _ _).bind fun _ =>
    sends_finalizeLoaded (fun _ => .documentExport (by simp))
      fun _ _ _ => .documentStatus (.finish (by simp)))

/-- The version of a review is one compare-and-increment. -/
theorem sends_compareAndIncrement {document : Loaded Document} {version : ℤ}
    (h : P (.update (.document document.id)
      (fun (row : Document) => row.reviewVersion = version) Document.withNextVersion)) :
    (DocumentRepository.compareAndIncrementReviewVersion document version).Sends P :=
  (sends_update h).bind fun o => (sends_matched o).bind fun _ => trivial

/-- The increment leaves the status and the current job of the loaded document alone. -/
theorem returns_compareAndIncrement {document : Loaded Document} {version : ℤ} :
    (DocumentRepository.compareAndIncrementReviewVersion document version).Returns fun found =>
      ∀ d, found = some d → SameReading document d := by
  refine Prog.Returns.bind (Q := fun _ => True) (Prog.Returns.any fun _ => trivial) fun _ _ =>
    Prog.Returns.bind (Q := fun _ => True) (Prog.Returns.any fun _ => trivial) fun found _ => ?_
  intro d hd
  obtain ⟨_, -, rfl⟩ := Option.map_eq_some_iff.mp hd
  split <;> exact ⟨rfl, rfl, rfl⟩

/-- A save sends the version, the decisions, the export and the finishing update. -/
theorem sends_saveLoaded [AllowsTransaction P] {document : Loaded Document}
    {documentId userId : Uuid} {version : ℤ} {accepted rejected : List Uuid} {finalized : Bool}
    {exporting : Option ExportRun} {edits : Uuid → Option Text}
    (hversion : P (.update (.document document.id)
      (fun (row : Document) => row.reviewVersion = version) Document.withNextVersion))
    (hdecide : ∀ decisions id now,
      P (.update (.suggestion id) (SuggestionRepository.decidable decisions id)
        (SuggestionRepository.decided decisions now id)))
    (hexport : ∀ key,
      P (.update (.document document.id) (fun _ => true) (Document.withExportedKey key)))
    (hfinish : ∀ jobId, document.row.status = .awaitingApproval →
      document.row.currentAnalysisJobId = some jobId → P (finishes document jobId)) :
    (SuggestionService.saveLoaded document documentId userId version accepted rejected finalized
      exporting edits).Sends P := by
  refine sends_assertAwaitingApproval fun hst => sends_assertHasActiveJob fun jobId hjob =>
    (sends_compareAndIncrement hversion).bind_of_returns returns_compareAndIncrement
      fun found hfound => ?_
  split
  · trivial
  rename_i d
  have hd : SameReading document d := hfound d rfl
  refine (sends_bulkUpdateStatus (hdecide _)).bind fun updated => ?_
  split
  · refine (sends_count _ _).bind fun pending => Prog.Sends.bind ?_ fun _ =>
      sends_commit.bind fun _ => trivial
    split
    · unfold SuggestionService.finalizeSave
      split
      · rename_i hzero
        refine Prog.Sends.bind_of_returns (sends_exportIfAsked (by rw [hd.1]; exact hexport))
          returns_exportIfAsked fun d' hd' => ?_
        rw [hzero]
        exact sends_finishReview_of_sameReading (hd.trans hd') hst hjob (hfinish jobId hst hjob)
      · trivial
    · trivial
  · trivial

/-- `atomic_review_save` sends the statements of a save. -/
theorem sends_atomicReviewSave {projectId documentId userId : Uuid} {version : ℤ}
    {accepted rejected : List Uuid} {finalized : Bool} {exporting : Option ExportRun}
    {edits : Uuid → Option Text} :
    (SuggestionService.atomicReviewSave projectId documentId userId version accepted rejected
      finalized exporting edits).Sends (Sent .reviewSave) :=
  sends_withUow ((sends_getDocumentOrRaise _ _).bind fun _ =>
    sends_saveLoaded .documentVersion (fun _ _ _ => Sent.decided (by simp))
      (fun _ => .documentExport (by simp)) fun _ _ _ => .documentStatus (.finish (by simp)))

end review

/-! ## The operations of the worker -/

/-- The statements of a source task that store no suggestion. -/
inductive RunSent (jobId sourceId : Uuid) : AppStmt → Prop
  | reads {f} (h : Reads f) : RunSent jobId sourceId f
  | draw : RunSent jobId sourceId .draw
  | rollback : RunSent jobId sourceId .rollback
  | commit : RunSent jobId sourceId .commit
  | begun {n} :
      RunSent jobId sourceId (.update (.job jobId)
        (fun (row : AnalysisJob) => AnalysisJobLifecycle.isActive row.status) (AnalysisJob.begun n))
  | insert : RunSent jobId sourceId (.insert (.jobSource jobId sourceId) ({} : AnalysisJobSource))
  | claim {expired n token} :
      RunSent jobId sourceId (.update (.jobSource jobId sourceId)
        (AnalysisJobSourceRepository.claimable expired) (AnalysisJobSource.claimed n token))
  | release {token} :
      RunSent jobId sourceId (.update (.jobSource jobId sourceId)
        (AnalysisJobSourceRepository.ownedBy token) AnalysisJobSource.released)

/-- The statements about a run are among those of `_process_source`. -/
theorem RunSent.sent {jobId sourceId : Uuid} {f : AppStmt} (h : RunSent jobId sourceId f) :
    Sent .processSource f := by
  cases h with
  | reads h => exact AllowsReads.reads h
  | draw => exact .draw
  | rollback => exact .rollback
  | commit => exact .commit
  | begun => exact .jobBegun
  | insert => exact .insertRun
  | claim => exact .runClaim
  | release => exact .runRelease

section worker

variable {jobId sourceId : Uuid}

instance : AllowsTransaction (RunSent jobId sourceId) where
  reads := .reads
  commit := .commit
  rollback := .rollback

/-- Claiming a run sends statements about that run. -/
theorem sends_claimRun {document : Loaded Document} :
    (AnalysisTasks.claimRun jobId sourceId document).Sends (RunSent jobId sourceId) := by
  refine Prog.Sends.bind ?_ fun _ => (sends_getCompletedCount _ _).bind fun alreadyDone => ?_
  · refine (sends_fetch _).bind fun existing => ?_
    split
    · trivial
    · refine (Prog.Sends.stmt .insert).bind fun _ => (sends_fetch _).bind fun row => ?_
      split <;> trivial
  · split
    · exact sends_commit.bind fun _ => trivial
    · refine Prog.Sends.bind ?_ fun token => sends_commit.bind fun _ => ?_
      · exact (Prog.Sends.stmt .draw).bind fun token => sends_now.bind fun n =>
          (Prog.Sends.stmt .claim).bind fun o => (sends_matched o).bind fun _ => trivial
      · split <;> trivial

/-- `_claim_source` sends statements about the run. -/
theorem sends_claimSource :
    (AnalysisTasks.claimSource jobId sourceId).Sends (RunSent jobId sourceId) := by
  refine sends_closing ((sends_getJob _).bind fun found => ?_)
  split
  · trivial
  refine Prog.Sends.bind ?_ fun active => ?_
  · exact sends_now.bind fun n => (Prog.Sends.stmt .begun).bind fun o =>
      (sends_matched o).bind fun _ => trivial
  split
  · refine sends_commit.bind fun _ => (sends_getSource _).bind fun source => ?_
    split
    · trivial
    refine (sends_getDocument _).bind fun document => ?_
    split
    · trivial
    exact sends_claimRun
  · trivial

/-- Releasing a run is a statement about it. -/
theorem sends_release {token : Uuid} :
    (AnalysisJobSourceRepository.release jobId sourceId token).Sends (RunSent jobId sourceId) :=
  (Prog.Sends.stmt .release).bind fun o => (sends_matched o).bind fun _ => trivial

/-- `_release_source` sends statements about the run. -/
theorem sends_releaseSource {token : Uuid} :
    (AnalysisTasks.releaseSource jobId sourceId token).Sends (RunSent jobId sourceId) :=
  (sends_closing (sends_release.bind fun _ => sends_commit)).tryCatch
    fun _ => trivial

/-- `_store_result` sends the completion of the run and the insertion of its suggestions. -/
theorem sends_storeResult {token : Uuid} {suggestions : List Suggestion} :
    (AnalysisTasks.storeResult jobId sourceId token suggestions).Sends (Sent .processSource) := by
  refine sends_closing ((sends_getJob _).bind fun found => ?_)
  split
  · refine Prog.Sends.bind ?_ fun won => ?_
    · exact sends_now.bind fun n => (sends_update .runComplete).bind fun o =>
        (sends_matched o).bind fun _ => trivial
    split
    · refine (sends_getSource _).bind fun source => ?_
      split
      · exact sends_rollback.bind fun _ => trivial
      · refine Prog.Sends.bind (Prog.Sends.each fun suggestion _ => ?_) fun _ =>
          sends_commit.bind fun _ => trivial
        refine (Prog.Sends.stmt .draw).bind fun id =>
          (Prog.Sends.stmt .insertSuggestion).bind fun inserted => ?_
        split <;> trivial
    · refine sends_rollback.bind fun _ => (sends_getCompletedCount _ _).bind fun _ => ?_
      split <;> trivial
  · exact (sends_release.mono fun _ => RunSent.sent).bind fun _ => sends_commit.bind fun _ => trivial

/-- `_process_source` sends its statements and no others. -/
theorem sends_processSource {generation : GenerationRun} :
    (AnalysisTasks.processSource jobId sourceId generation).Sends (Sent .processSource) := by
  refine (sends_claimSource.mono fun _ => RunSent.sent).bind fun start => ?_
  split
  · trivial
  · split
    · refine (sends_releaseSource.mono fun _ => RunSent.sent).bind fun _ => ?_
      split <;> trivial
    · exact sends_storeResult

/-- The status that sums up the results ends a job. -/
theorem isTerminal_summary (results : List SourceResult) :
    AnalysisJobLifecycle.isTerminal (AnalysisTasks.summary results).1 = true := by
  unfold AnalysisTasks.summary
  dsimp only
  split
  · rfl
  · split
    · rfl
    · split <;> rfl

/-- `_finalize` sends the statements of a finalization of the job. -/
theorem sends_finalize {results : List SourceResult} {jobId : Uuid} :
    (AnalysisTasks.finalize results jobId).Sends (Sent .finalize) := by
  refine sends_closing ((sends_getJob _).bind fun found => ?_)
  split
  · trivial
  rename_i job
  split
  · trivial
  refine (sends_getDocument _).bind fun document => ?_
  split
  · trivial
  rename_i document
  have hterminal := isTerminal_summary results
  unfold AnalysisTasks.finishJob
  generalize AnalysisTasks.summary results = outcome at hterminal
  obtain ⟨jobStatus, errorCode, errorMessage⟩ := outcome
  refine (sends_count _ _).bind fun pending => ?_
  unfold jobTransition
  rcases htr : AnalysisJobLifecycle.transition job.row.status jobStatus with _ | status
  · trivial
  obtain ⟨rfl, hlegal⟩ := AnalysisJobLifecycle.transition_eq_some.mp htr
  refine (sends_jobUpdateStatus fun new hnew => ?_).bind fun job' => ?_
  · subst hnew
    exact .jobStatus hlegal (.inr ⟨by simp, hterminal⟩)
  refine Prog.Sends.bind (sends_flushJob (.jobColumns rfl (by simp))) fun job'' => ?_
  split
  · unfold documentTransition
    rcases htr' : DocumentLifecycle.transition document.row.status
        (AnalysisJobLifecycle.documentStatusFor status (decide (0 < pending))) with _ | target
    · trivial
    obtain ⟨rfl, hmem⟩ := DocumentLifecycle.transition_eq_some.mp htr'
    exact (sends_updateStatus fun _ => .documentStatus (.finalize hterminal hmem)).bind fun _ =>
      sends_commit
  · exact sends_commit

/-- A delivery of the queue reads, whatever operation it is part of. -/
theorem sends_delivered {kind : OperationKind} (delivery : Option (List Uuid)) (jobId : Uuid) :
    (delivered delivery jobId).Sends (Sent kind) := by
  cases delivery
  · trivial
  · exact Prog.Sends.stmt .await

end worker

/-- `upload_document` sends the insertion of a document. -/
theorem sends_uploadDocument {maxSizeBytes : ℕ} {projectId : Uuid} {file : Upload} :
    (DocumentService.uploadDocument maxSizeBytes projectId file).Sends (Sent .upload) := by
  unfold DocumentService.uploadDocument
  split
  · trivial
  split
  · trivial
  refine (Prog.Sends.stmt .draw).bind fun documentId => ?_
  split
  · refine sends_withUow (Prog.Sends.bind ?_ fun _ => sends_commit.bind fun _ => trivial)
    refine (Prog.Sends.stmt (.insertDocument rfl rfl)).bind fun inserted => ?_
    split <;> trivial
  · trivial

/-- A dispatch of a committed job sends the statements of a dispatch. -/
theorem sends_dispatchCommitted {jobId : Uuid} {run : EnqueueRun} :
    (AnalysisJobService.dispatchCommitted jobId run).Sends (Sent .dispatch) := by
  refine (sends_getJob _).bind fun found => ?_
  split
  · exact sends_dispatchJob (by simp)
  · trivial

/-- **The list is complete**: an operation sends the statements of its kind and no others. -/
theorem Operation.sends (op : Operation) : op.program.Sends (Sent op.kind) := by
  cases op with
  | upload => exact sends_request sends_uploadDocument
  | create => exact sends_request (sends_createJob (by simp [kind]))
  | start => exact sends_request sends_startAnalysisJob
  | dispatch => exact sends_request sends_dispatchCommitted
  | cancel => exact sends_request sends_cancelJob
  | processSource => exact (sends_delivered _ _).bind fun _ => sends_processSource.bind fun _ => trivial
  | finalize => exact (sends_delivered _ _).bind fun _ => sends_finalize
  | reviewSave => exact sends_request sends_atomicReviewSave
  | finalizeReview => exact sends_request sends_finalizeReview
  | patch => exact sends_request sends_patchSuggestions
  | resetSuggestion => exact sends_request sends_resetSuggestion
  | resetAnalysis => exact sends_request sends_resetAnalysis

end SyncBack
