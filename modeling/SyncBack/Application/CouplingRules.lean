import SyncBack.Application.ReviewRules
import SyncBack.Domain.Coupling

/-!
# Rules for coupled statuses

Serial rules for the statuses of documents and jobs. `InSession s₀ t base view s` says that the
session of `t` sees the statuses `view` where `base` is committed, and that everything committed
since `s₀` kept the statuses coupled and changed them along the transitions. A rule says how a
method of the repositories or a helper of the services changes `view`; a commit needs a step from
`base` to `view`.

An exception leaves alone what is committed, and `FailsSince` says that no transition raised it.
-/

namespace SyncBack

open Txn Session

/-! ## Statuses of rows -/

/-- What the life cycles say of a row. -/
def Document.state (row : Document) : DocumentState Uuid := ⟨row.status, row.currentAnalysisJobId⟩

/-- What the life cycles say of a row. -/
def AnalysisJob.state (row : AnalysisJob) : JobState Uuid := ⟨row.documentId, row.status⟩

namespace Rows

/-- The statuses of the documents and the jobs among the rows. -/
def statuses (rows : Rows) : Statuses Uuid Uuid where
  document id := Option.map Document.state (rows (.document id))
  job id := Option.map AnalysisJob.state (rows (.job id))

/-- The statuses of a document that is among the rows. -/
theorem statuses_document {rows : Rows} {id : Uuid} {row : Document}
    (h : rows (.document id) = some row) : rows.statuses.document id = some row.state :=
  congrArg (Option.map Document.state) h

/-- The statuses of a job that is among the rows. -/
theorem statuses_job {rows : Rows} {id : Uuid} {row : AnalysisJob}
    (h : rows (.job id) = some row) : rows.statuses.job id = some row.state :=
  congrArg (Option.map AnalysisJob.state) h

/-- A new row of a document sets its status. -/
theorem statuses_update_document (rows : Rows) (id : Uuid) (row : Document) :
    statuses (Function.update rows (.document id) (some row)) =
      rows.statuses.setDocument id row.state := by
  refine congrArg₂ Statuses.mk (funext fun id' => ?_) (funext fun id' => ?_)
  · by_cases hid : id' = id
    · subst hid
      rw [Function.update_self, Function.update_self]
      rfl
    · rw [Function.update_of_ne (by simpa using hid), Function.update_of_ne hid]
      rfl
  · rw [Function.update_of_ne (by simp)]
    rfl

/-- A new row of a job sets its status. -/
theorem statuses_update_job (rows : Rows) (id : Uuid) (row : AnalysisJob) :
    statuses (Function.update rows (.job id) (some row)) = rows.statuses.setJob id row.state := by
  refine congrArg₂ Statuses.mk (funext fun id' => ?_) (funext fun id' => ?_)
  · rw [Function.update_of_ne (by simp)]
    rfl
  · by_cases hid : id' = id
    · subst hid
      rw [Function.update_self, Function.update_self]
      rfl
    · rw [Function.update_of_ne (by simpa using hid), Function.update_of_ne hid]
      rfl

/-- Rows of the other tables have no statuses. -/
theorem statuses_update_of_ne (rows : Rows) {k : Key} (v : Option (Row k))
    (hdocument : ∀ id, k ≠ .document id) (hjob : ∀ id, k ≠ .job id) :
    statuses (Function.update rows k v) = rows.statuses := by
  refine congrArg₂ Statuses.mk (funext fun id => ?_) (funext fun id => ?_)
  · rw [Function.update_of_ne (hdocument id).symm]
  · rw [Function.update_of_ne (hjob id).symm]

end Rows

/-! ## What is committed -/

/-- Rows that change along the transitions. -/
def LegalChange (rows rows' : Rows) : Prop := rows.statuses.Legal rows'.statuses

/-- Every job that the broker has a task for was begun. -/
def TasksBegun (s : AppDb) : Prop :=
  ∀ jobId sourceIds, Message.analysis jobId sourceIds ∈ s.sent →
    (Rows.statuses s.committed).Begun jobId

/-- **What is committed since `s₀`**: the statuses are coupled, and every transaction changed them
along the transitions. -/
structure CoupledSince (s₀ s : AppDb) : Prop where
  coupled : (Rows.statuses s.committed).Coupled
  enqueued : TasksBegun s
  commits : Db.Commits LegalChange s₀ s

/-- The exception of a refused transition. Source: `DocumentLifecycle.transition`,
`AnalysisJobLifecycle.transition`. -/
def DomainError.isTransition : DomainError → Bool
  | .invalidDocumentStatus (.documentTransition _ _) => true
  | .invalidDocumentStatus (.jobTransition _ _) => true
  | _ => false

/-- The exception is not that of a refused transition. -/
def DomainError.Harmless (e : DomainError) : Prop := e.isTransition = false

/-- The end with an exception. -/
def FailsSince (s₀ : AppDb) (e : DomainError) (s : AppDb) : Prop :=
  CoupledSince s₀ s ∧ e.Harmless

/-- **A session in the middle of a transaction**: `t` sees the statuses `view`, and `base` is
committed. -/
structure InSession (s₀ : AppDb) (t : Process) (base view : Statuses Uuid Uuid) (s : AppDb) :
    Prop where
  since : CoupledSince s₀ s
  committed : Rows.statuses s.committed = base
  read : Rows.statuses (s.read t) = view

variable {s₀ s s' : AppDb} {t : Process} {base view : Statuses Uuid Uuid} {α β : Type}

/-- The log, the messages and the committed rows are all it depends on. -/
theorem CoupledSince.of_same (h : CoupledSince s₀ s) (hcommitted : s'.committed = s.committed)
    (hlog : s'.log = s.log) (hsent : s'.sent = s.sent) : CoupledSince s₀ s' where
  coupled := by
    rw [hcommitted]
    exact h.coupled
  enqueued jobId sourceIds hmem := by
    rw [hcommitted]
    exact h.enqueued jobId sourceIds (hsent ▸ hmem)
  commits := h.commits.of_same hcommitted hlog

/-- Nothing has happened since `s`. -/
theorem CoupledSince.refl (hcoupled : (Rows.statuses s.committed).Coupled) (hsent : TasksBegun s) :
    CoupledSince s s :=
  ⟨hcoupled, hsent, Db.Commits.refl s⟩

/-- A rollback commits nothing. -/
theorem CoupledSince.rollback (h : CoupledSince s₀ s) : CoupledSince s₀ (s.rollback t) :=
  h.of_same rfl rfl rfl

/-! ## Statements -/

/-- The statement changes no status, hands over no message and ends no transaction. -/
inductive KeepsStatuses : AppStmt → Prop
  | reads {f} (h : Reads f) : KeepsStatuses f
  | draw : KeepsStatuses .draw
  | document {id p} {f : Document → Document} (h : ∀ row, (f row).state = row.state) :
      KeepsStatuses (.update (.document id) p f)
  | job {id p} {f : AnalysisJob → AnalysisJob} (h : ∀ row, (f row).state = row.state) :
      KeepsStatuses (.update (.job id) p f)
  | suggestion {id p f} : KeepsStatuses (.update (.suggestion id) p f)
  | run {jobId sourceId p f} : KeepsStatuses (.update (.jobSource jobId sourceId) p f)
  | insertSuggestion {id row} : KeepsStatuses (.insert (.suggestion id) row)
  | insertRun {jobId sourceId row} : KeepsStatuses (.insert (.jobSource jobId sourceId) row)

/-- The statement keeps the statuses, or ends a transaction. -/
inductive Settles : AppStmt → Prop
  | keeps {f} (h : KeepsStatuses f) : Settles f
  | commit : Settles .commit
  | rollback : Settles .rollback

namespace InSession

/-- A session that is about to begin. -/
theorem of_quiet (h : CoupledSince s₀ s) (hquiet : s.Quiet) (t : Process) :
    InSession s₀ t (Rows.statuses s.committed) (Rows.statuses s.committed) s :=
  ⟨h, rfl, congrArg Rows.statuses (funext (Db.idle_of_quiet hquiet t).read)⟩

/-- What is committed is coupled. -/
theorem coupled (h : InSession s₀ t base view s) : base.Coupled := h.committed ▸ h.since.coupled

/-- A document that `t` reads has its status in the view. -/
theorem document (h : InSession s₀ t base view s) {id : Uuid} {row : Document}
    (hrow : s.read t (.document id) = some row) : view.document id = some row.state := by
  rw [← h.read]
  exact Rows.statuses_document hrow

/-- A job that `t` reads has its status in the view. -/
theorem job (h : InSession s₀ t base view s) {id : Uuid} {row : AnalysisJob}
    (hrow : s.read t (.job id) = some row) : view.job id = some row.state := by
  rw [← h.read]
  exact Rows.statuses_job hrow

/-- The row of a job in view. -/
theorem exists_job (h : InSession s₀ t base view s) {id : Uuid} {y : JobState Uuid}
    (hy : view.job id = some y) :
    ∃ row : AnalysisJob, s.read t (.job id) = some row ∧ y = row.state := by
  rw [← h.read] at hy
  obtain ⟨row, hrow, hstate⟩ := Option.map_eq_some_iff.mp hy
  exact ⟨row, hrow, hstate.symm⟩

/-- What is committed is not touched. -/
theorem of_same (h : InSession s₀ t base view s) {view' : Statuses Uuid Uuid}
    (hcommitted : s'.committed = s.committed) (hlog : s'.log = s.log) (hsent : s'.sent = s.sent)
    (hread : Rows.statuses (s'.read t) = view') : InSession s₀ t base view' s' :=
  ⟨h.since.of_same hcommitted hlog hsent, (congrArg Rows.statuses hcommitted).trans h.committed,
    hread⟩

/-- Writing a document changes the view there. -/
theorem writeDocument (h : InSession s₀ t base view s) (id : Uuid) (row : Document) :
    InSession s₀ t base (view.setDocument id row.state) (s.write t (.document id) (some row)) := by
  refine h.of_same rfl rfl rfl ?_
  rw [Db.read_write, Rows.statuses_update_document, h.read]

/-- Writing a job changes the view there. -/
theorem writeJob (h : InSession s₀ t base view s) (id : Uuid) (row : AnalysisJob) :
    InSession s₀ t base (view.setJob id row.state) (s.write t (.job id) (some row)) := by
  refine h.of_same rfl rfl rfl ?_
  rw [Db.read_write, Rows.statuses_update_job, h.read]

/-- Writing another row leaves the view. -/
theorem writeOther (h : InSession s₀ t base view s) {k : Key} (v : Option (Row k))
    (hdocument : ∀ id, k ≠ .document id) (hjob : ∀ id, k ≠ .job id) :
    InSession s₀ t base view (s.write t k v) := by
  refine h.of_same rfl rfl rfl ?_
  rw [Db.read_write, Rows.statuses_update_of_ne _ v hdocument hjob, h.read]

/-- A statement without statuses keeps the view. -/
theorem keeps (h : InSession s₀ t base view s) {f : AppStmt} (hf : KeepsStatuses f)
    (he : Effect t s f s') : InSession s₀ t base view s' := by
  cases hf with
  | reads hf => cases hf <;> cases he <;> exact h
  | draw =>
      cases he with
      | same => exact h
      | draw => exact h.of_same rfl rfl rfl h.read
  | @document id p f hf =>
      cases he with
      | same => exact h
      | @update _ _ _ row _ hrow _ _ =>
          have hw := h.writeDocument id (f row)
          rwa [hf, Statuses.setDocument_self (h.document hrow)] at hw
  | @job id p f hf =>
      cases he with
      | same => exact h
      | @update _ _ _ row _ hrow _ _ =>
          have hw := h.writeJob id (f row)
          rwa [hf, Statuses.setJob_self (h.job hrow)] at hw
  | suggestion | run | insertSuggestion | insertRun =>
      cases he with
      | same => exact h
      | _ => exact h.writeOther _ (fun _ => by simp) fun _ => by simp

/-- After a rollback the view is what is committed. -/
theorem rollback (h : InSession s₀ t base view s) : InSession s₀ t base base (s.rollback t) := by
  refine h.of_same rfl rfl rfl ?_
  rw [← h.committed]
  exact congrArg Rows.statuses (funext (Db.read_rollback_self s t))

/-- **A commit** of the statuses that a step leads to. -/
theorem commit (h : InSession s₀ t base view s) (hstep : Relation.ReflGen Statuses.Step base view) :
    InSession s₀ t view view (s.commit t) := by
  have hview : view.Coupled ∧ base.Legal view := by
    cases hstep with
    | refl => exact ⟨h.coupled, Statuses.Legal.refl base⟩
    | single hstep => exact ⟨hstep.coupled h.coupled, hstep.legal⟩
  refine ⟨⟨?_, fun jobId sourceIds hmem => ?_, ?_⟩, h.read, ?_⟩
  · rw [Db.commit_committed, h.read]
    exact hview.1
  · rw [Db.commit_committed, h.read]
    exact (h.committed ▸ h.since.enqueued jobId sourceIds hmem).legal hview.2
  · refine h.since.commits.commit ?_
    rw [LegalChange, h.committed, h.read]
    exact hview.2
  · rw [← h.read]
    exact congrArg Rows.statuses (funext (Db.read_commit_self s t))

/-- A statement that settles keeps the view that is committed. -/
theorem settles (h : InSession s₀ t base base s) {f : AppStmt} (hf : Settles f)
    (he : Effect t s f s') : InSession s₀ t base base s' := by
  cases hf with
  | keeps hf => exact h.keeps hf he
  | commit =>
      cases he with
      | same => exact h
      | commit => exact h.commit .refl
  | rollback =>
      cases he with
      | same => exact h
      | rollback => exact h.rollback

end InSession

/-! ## Parts that keep the statuses -/

instance : AllowsReads KeepsStatuses := ⟨.reads⟩

instance : AllowsTransaction Settles where
  reads h := .keeps (.reads h)
  commit := .commit
  rollback := .rollback

/-- A part of a session that sends only such statements; no transition raises its exceptions. -/
structure Keeps (P : AppStmt → Prop) (p : Session α) : Prop where
  sends : p.Sends P
  raises : p.Raises DomainError.Harmless

namespace Keeps

variable {P : AppStmt → Prop}

/-- Returning a value sends nothing. -/
theorem pure (a : α) : Keeps P (pure a : Session α) := ⟨trivial, trivial⟩

/-- An exception that no transition raises. -/
theorem throw {e : DomainError} (he : e.isTransition = false) :
    Keeps P (throw e : Session α) := ⟨trivial, he⟩

/-- One statement. -/
theorem stmt {f : AppStmt} (h : P f) : Keeps P (Prog.stmt f : Session (f.Resp Process)) :=
  ⟨Prog.Sends.stmt h, fun _ => trivial⟩

/-- One reading statement. -/
theorem reads [AllowsReads P] {f : AppStmt} (h : Reads f) :
    Keeps P (Prog.stmt f : Session (f.Resp Process)) :=
  stmt (AllowsReads.reads h)

/-- One part after another. -/
theorem bind {p : Session α} {g : α → Session β} (h : Keeps P p) (hg : ∀ a, Keeps P (g a)) :
    Keeps P (p >>= g) :=
  ⟨h.sends.bind fun a => (hg a).sends, h.raises.bind fun a => (hg a).raises⟩

/-- `try … except`: what the handler raises takes the place of the exception. -/
theorem tryCatch {p : Session α} {g : DomainError → Session α} (h : Keeps P p)
    (hg : ∀ e, Keeps P (g e)) : Keeps P (Prog.tryCatch p g) :=
  ⟨h.sends.tryCatch fun e => (hg e).sends, h.raises.tryCatch fun e _ => (hg e).raises⟩

/-- A unit of work. -/
theorem withUow [AllowsTransaction P] {body : Session α} (h : Keeps P body) :
    Keeps P (withUow body) :=
  ⟨sends_withUow h.sends, h.raises.tryCatch fun _ he _ => he⟩

/-- A session that is closed at the end. -/
theorem closing [AllowsTransaction P] {body : Session α} (h : Keeps P body) :
    Keeps P (closing body) :=
  h.withUow.bind fun _ => (stmt AllowsTransaction.rollback).bind fun _ => pure _

/-- Raising what a flush met. -/
theorem flushed {ρ : Type} (o : Outcome ρ) : Keeps P (flushed o) := by
  cases o with
  | updated row => exact pure row
  | missed | violated => exact throw rfl

/-- Reading what an update matched. -/
theorem matched {ρ : Type} (o : Outcome ρ) : Keeps P (matched o) := by
  cases o with
  | updated row => exact pure _
  | missed => exact pure _
  | violated => exact throw rfl

end Keeps

/-! ### Reading -/

section reading

variable {P : AppStmt → Prop} [AllowsReads P]

/-- Counting suggestions keeps the statuses. -/
theorem keeps_count (jobId : Uuid) (status : SuggestionStatus) :
    Keeps P (SuggestionRepository.countByAnalysisJobAndStatus jobId status) :=
  ((Keeps.reads .find).bind fun _ => .pure _).bind fun _ => .pure _

/-- Looking for the job of an idempotency key keeps them. -/
theorem keeps_findByKey (documentId : Uuid) (key : Option String) :
    Keeps P (AnalysisJobService.findByKey documentId key) := by
  cases key with
  | none => exact .pure _
  | some key => exact (Keeps.reads .find).bind fun _ => .pure _

/-- So does the query for that key. -/
theorem keeps_getByIdempotencyKey (documentId : Uuid) (key : String) :
    Keeps P (AnalysisJobRepository.getByIdempotencyKey documentId key) :=
  (Keeps.reads .find).bind fun _ => .pure _

/-- The sources of a run are found without a change of statuses. -/
theorem keeps_listForAnalysis (projectId documentId : Uuid) :
    Keeps P (SourceRepository.listForAnalysis projectId documentId) :=
  ((Keeps.reads .find).bind fun _ => .pure _).bind fun _ =>
    (Keeps.reads .find).bind fun _ => .pure _

/-- So is a suggestion for its document. -/
theorem keeps_getSuggestionForDocument (document : Loaded Document) (suggestionId : Uuid) :
    Keeps P (SuggestionService.getSuggestionForDocument document suggestionId) := by
  refine ((Keeps.reads .get).bind fun _ => .pure _).bind fun found => ?_
  split
  · split
    · exact .pure _
    · exact .throw rfl
  · exact .throw rfl

end reading

/-- Looking for a key in a transaction of its own settles. -/
theorem settles_findJobByIdempotencyKey (projectId documentId : Uuid) (key : String) :
    Keeps Settles (AnalysisJobService.findJobByIdempotencyKey projectId documentId key) := by
  refine Keeps.withUow (((Keeps.reads .get).bind fun _ => .pure _).bind fun found => ?_)
  split
  · split
    · exact keeps_getByIdempotencyKey _ _
    · exact .pure _
  · exact .pure _

/-! ### Suggestions -/

/-- Updates of suggestions keep the statuses, by induction on the suggestions. -/
theorem keeps_updateRows {p : Uuid → Suggestion → Bool} {f : Uuid → Suggestion → Suggestion} :
    ∀ ids, Keeps KeepsStatuses (SuggestionRepository.updateRows p f ids)
  | [] => .pure _
  | _ :: rest => (Keeps.stmt .suggestion).bind fun o => (Keeps.matched o).bind fun _ =>
      (keeps_updateRows rest).bind fun _ => .pure _

/-- So does a bulk update. -/
theorem keeps_updateWhere (p : Uuid → Suggestion → Bool) (f : Uuid → Suggestion → Suggestion) :
    Keeps KeepsStatuses (SuggestionRepository.updateWhere p f) :=
  ((Keeps.reads .find).bind fun _ => .pure _).bind fun ids => keeps_updateRows ids

/-- So do the decisions of a review. -/
theorem keeps_bulkUpdateStatus (decisions : ReviewDecisions) :
    Keeps KeepsStatuses (SuggestionRepository.bulkUpdateStatus decisions) := by
  unfold SuggestionRepository.bulkUpdateStatus
  split
  · exact .pure _
  · exact (Keeps.reads .now).bind fun _ => (keeps_updateWhere _ _).bind fun _ => .pure _

/-- So does a decision about pending suggestions. -/
theorem keeps_decidePending (documentId jobId userId : Uuid) (target : SuggestionStatus)
    (ids : Option (List Uuid)) (filter : Option PatchFilter) :
    Keeps KeepsStatuses
      (SuggestionService.decidePending documentId jobId userId target ids filter) := by
  have hall : ∀ status, Keeps KeepsStatuses
      (SuggestionRepository.bulkDecideAll status jobId userId) := fun _ =>
    (Keeps.reads .now).bind fun _ => keeps_updateWhere _ _
  unfold SuggestionService.decidePending
  split
  · refine (keeps_bulkUpdateStatus _).bind fun updated => ?_
    split
    · exact .pure _
    · exact .throw rfl
  · split
    · exact .throw rfl
    · split
      · exact hall _
      · exact hall _

/-- A reset of suggestions keeps the statuses. -/
theorem keeps_resetToPending (jobId : Uuid) (ids : Option (List Uuid)) (basis : Basis) :
    Keeps KeepsStatuses (SuggestionRepository.resetToPending jobId ids basis) := by
  unfold SuggestionRepository.resetToPending
  split
  · exact .pure _
  · exact keeps_updateWhere _ _
  · exact keeps_updateWhere _ _

/-- So does the reset that a patch asks for. -/
theorem keeps_resetMany (jobId : Uuid) (ids : Option (List Uuid)) (filter : Option PatchFilter)
    (basis : Basis) :
    Keeps KeepsStatuses (SuggestionService.resetToPending jobId ids filter basis) := by
  unfold SuggestionService.resetToPending
  split
  · split
    · exact .pure _
    · exact keeps_resetToPending _ _ _
  · refine (keeps_resetToPending _ _ _).bind fun resetIds => ?_
    split
    · exact .pure _
    · exact .throw rfl

/-- So does the reset of one suggestion. -/
theorem keeps_resetStatus (suggestion : Loaded Suggestion) (basis : Basis) :
    Keeps KeepsStatuses (SuggestionRepository.resetStatus suggestion basis) :=
  (Keeps.stmt .suggestion).bind fun o => (Keeps.matched o).bind fun _ => .pure _

/-! ### Documents and jobs -/

/-- So does the version of a review. -/
theorem keeps_compareAndIncrement (document : Loaded Document) (version : ℤ) :
    Keeps KeepsStatuses
      (DocumentRepository.compareAndIncrementReviewVersion document version) :=
  (Keeps.stmt (.document fun _ => rfl)).bind fun o => (Keeps.matched o).bind fun _ => .pure _

/-- An export settles: it commits on its own. -/
theorem settles_exportIfAsked (document : Loaded Document) (exporting : Option ExportRun) :
    Keeps Settles (SuggestionService.exportIfAsked document exporting) := by
  rcases exporting with _ | _ | _
  · exact .pure _
  · exact .throw rfl
  · refine Keeps.tryCatch (Keeps.withUow (Keeps.bind ?_ fun _ => (Keeps.stmt .commit).bind
      fun _ => .pure _)) fun _ => .throw rfl
    unfold DocumentRepository.updateExportedKey
    split
    · exact .pure _
    · exact (Keeps.stmt (.keeps (.document fun _ => rfl))).bind fun o =>
        (Keeps.flushed o).bind fun _ => .pure _

/-- A flush that leaves the status of the job alone. -/
theorem keeps_flushJob {job : Loaded AnalysisJob} {new : AnalysisJob}
    (h : new.state = job.row.state) : Keeps KeepsStatuses (flushJob job new) := by
  have hdocument : new.documentId = job.row.documentId := congrArg JobState.document h
  have hstatus : new.status = job.row.status := congrArg JobState.status h
  unfold flushJob
  split
  · exact .pure _
  · refine (Keeps.stmt (.job fun row => ?_)).bind fun o => (Keeps.flushed o).bind fun _ => .pure _
    rw [AnalysisJob.state, AnalysisJob.onto, hdocument, hstatus, column_self, column_self]
    rfl

/-! ### Runs of a source -/

/-- Storing suggestions settles, by induction on the suggestions. -/
theorem settles_bulkCreate :
    ∀ suggestions, Keeps Settles (SuggestionRepository.bulkCreate suggestions)
  | [] => .pure _
  | _ :: rest => by
      refine Keeps.bind ?_ fun _ => settles_bulkCreate rest
      refine (Keeps.stmt (.keeps .draw)).bind fun id =>
        (Keeps.stmt (.keeps .insertSuggestion)).bind fun inserted => ?_
      split
      · exact .pure _
      · exact .throw rfl

section runs

variable {jobId sourceId token : Uuid}

/-- Claiming a run settles. -/
theorem settles_claimRun (document : Loaded Document) :
    Keeps Settles (AnalysisTasks.claimRun jobId sourceId document) := by
  refine Keeps.bind ?_ fun _ => ((Keeps.reads .get).bind fun _ => .pure _).bind fun done => ?_
  · refine (Keeps.reads .get).bind fun existing => ?_
    split
    · exact .pure _
    · refine (Keeps.stmt (.keeps .insertRun)).bind fun _ => (Keeps.reads .get).bind fun row => ?_
      split
      · exact .pure _
      · exact .throw rfl
  · split
    · exact (Keeps.stmt .commit).bind fun _ => .pure _
    · refine Keeps.bind ?_ fun token => (Keeps.stmt .commit).bind fun _ => ?_
      · exact (Keeps.stmt (.keeps .draw)).bind fun _ => (Keeps.reads .now).bind fun _ =>
          (Keeps.stmt (.keeps .run)).bind fun o => (Keeps.matched o).bind fun _ => .pure _
      · split
        · exact .pure _
        · exact .pure _

/-- Releasing a run settles. -/
theorem settles_release : Keeps Settles (AnalysisJobSourceRepository.release jobId sourceId token) :=
  (Keeps.stmt (.keeps .run)).bind fun o => (Keeps.matched o).bind fun _ => .pure _

/-- So does the session that releases it. -/
theorem settles_releaseSource :
    Keeps Settles (AnalysisTasks.releaseSource jobId sourceId token) := by
  have h : Keeps Settles (closing do
      AnalysisJobSourceRepository.release jobId sourceId token
      Session.commit) :=
    Keeps.closing (settles_release.bind fun _ => .stmt .commit)
  exact ⟨h.sends.tryCatch fun _ => trivial, h.raises.tryCatch fun _ _ => trivial⟩

/-- Storing the result of a run settles. -/
theorem settles_storeResult (suggestions : List Suggestion) :
    Keeps Settles (AnalysisTasks.storeResult jobId sourceId token suggestions) := by
  refine Keeps.closing (((Keeps.reads .get).bind fun _ => .pure _).bind fun found => ?_)
  split
  · refine Keeps.bind ?_ fun won => ?_
    · exact (Keeps.reads .now).bind fun _ => (Keeps.stmt (.keeps .run)).bind fun o =>
        (Keeps.matched o).bind fun _ => .pure _
    split
    · refine ((Keeps.reads .get).bind fun _ => .pure _).bind fun source => ?_
      split
      · exact (Keeps.stmt .rollback).bind fun _ => .pure _
      · exact (settles_bulkCreate _).bind fun _ => (Keeps.stmt .commit).bind fun _ => .pure _
    · refine (Keeps.stmt .rollback).bind fun _ =>
        ((Keeps.reads .get).bind fun _ => .pure _).bind fun stored => ?_
      split
      · exact .pure _
      · exact .pure _
  · exact settles_release.bind fun _ => (Keeps.stmt .commit).bind fun _ => .pure _

end runs

end SyncBack
