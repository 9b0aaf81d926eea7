import SyncBack.Services.BulkAnalysis
import SyncBack.Txn.Alone

/-!
# What a start alone comes to

The big-step rules of the parts of `create_job` and `dispatch_job`. With nobody else at work the
result of a start depends on the row of its document, on whether a job of the document is active,
on the force flag and on what the call of the queue does: `Refuses` and `Accepts` tell the two
cases apart, and `View.started` is what an accepted start leaves behind.
-/

namespace SyncBack

open Txn Session AnalysisJobService

variable {t : Process} {a a' : View Row} {α : Type}

/-! ## Sessions -/

/-- A unit of work that does not raise. -/
theorem evaluates_withUow {body : Session α} {x : α} (h : body.Evaluates t a (.ok x) a') :
    (withUow body).Evaluates t a (.ok x) a' :=
  h.tryCatch

/-- An exception rolls the transaction back. -/
theorem evaluates_withUow_error {body : Session α} {e : DomainError}
    (h : body.Evaluates t a (.error e) a') :
    (withUow body).Evaluates t a (.error e) a'.rollback :=
  h.tryCatch_error (Prog.Evaluates.rollback.bind Prog.Evaluates.throw)

/-! ## Documents -/

section documents

variable {id : Uuid} {row : Document}

/-- A document of the project is read. -/
theorem evaluates_getDocumentOrRaise {projectId : Uuid} (hrow : a.seen (.document id) = some row)
    (hproject : row.projectId = projectId) :
    (getDocumentOrRaise projectId id).Evaluates t a (.ok ⟨id, row⟩) a := by
  refine (Prog.Evaluates.get.bind Prog.Evaluates.pure).bind ?_
  rw [hrow]
  change (if row.projectId = projectId then pure _ else _ : Session (Loaded Document)).Evaluates
    t a _ a
  rw [if_pos hproject]
  exact Prog.Evaluates.pure

/-- Without one there is a 404. -/
theorem evaluates_getDocumentOrRaise_error {projectId : Uuid}
    (h : ∀ row : Document, a.seen (.document id) = some row → row.projectId ≠ projectId) :
    (getDocumentOrRaise projectId id).Evaluates t a
      (.error (.documentNotFound s!"Документ {id} не найден в проекте {projectId}")) a := by
  refine (Prog.Evaluates.get.bind Prog.Evaluates.pure).bind ?_
  rcases hrow : a.seen (.document id) with _ | row
  · exact Prog.Evaluates.throw
  · change (if row.projectId = projectId then _ else throw _ : Session (Loaded Document)).Evaluates
      t a _ a
    rw [if_neg (h row hrow)]
    exact Prog.Evaluates.throw

/-- Changing a column of a document. -/
theorem evaluates_flushDocument {f : Document → Document} {x : α}
    (hrow : a.seen (.document id) = some row) :
    (update (.document id) (fun _ => true) f >>= fun o => flushed o >>= fun _ =>
      (pure x : Session α)).Evaluates t a (.ok x) (a.write (.document id) (some (f row))) :=
  (Prog.Evaluates.update hrow rfl (View.free_of_not_clash fun _ _ => rfl)).bind
    (Prog.Evaluates.pure.bind Prog.Evaluates.pure)

/-- The current job is written. -/
theorem evaluates_setCurrentJob {jobId : Option Uuid} (hrow : a.seen (.document id) = some row) :
    (DocumentRepository.setCurrentJob ⟨id, row⟩ jobId).Evaluates t a
      (.ok ⟨id, row.withCurrentJob jobId⟩)
      (a.write (.document id) (some (row.withCurrentJob jobId))) := by
  dsimp only [DocumentRepository.setCurrentJob]
  split
  · rename_i hsame
    subst hsame
    change (Pure.pure (⟨id, row⟩ : Loaded Document) : Session (Loaded Document)).Evaluates t a
      (.ok ⟨id, row⟩) (a.write (.document id) (some row))
    rw [← hrow, View.write_seen_self]
    exact Prog.Evaluates.pure
  · exact evaluates_flushDocument hrow

/-- A legal new status is written. -/
theorem evaluates_setDocumentStatus {target : DocumentStatus} {basis : Basis}
    (hrow : a.seen (.document id) = some row) (hlegal : target ∈ documentTransitions row.status)
    (hne : target ≠ row.status) :
    (setDocumentStatus ⟨id, row⟩ target basis).Evaluates t a
      (.ok ⟨id, row.withStatus target basis⟩)
      (a.write (.document id) (some (row.withStatus target basis))) := by
  have htransition : documentTransition row.status target = pure target := by
    simp only [documentTransition, DocumentLifecycle.transition_eq_some.mpr ⟨rfl, hlegal⟩]
  dsimp only [setDocumentStatus]
  rw [htransition]
  refine Prog.Evaluates.pure.bind ?_
  dsimp only [DocumentRepository.updateStatus]
  rw [if_neg hne]
  exact evaluates_flushDocument hrow

/-- The document of a job, from the session or from the database. -/
theorem evaluates_documentOf {held : Option (Loaded Document)}
    (hrow : a.seen (.document id) = some row)
    (hheld : ∀ document, held = some document → document = ⟨id, row⟩) :
    (documentOf id held).Evaluates t a (.ok ⟨id, row⟩) a := by
  rcases held with _ | document
  · refine Prog.Evaluates.bind (Prog.Evaluates.get.bind Prog.Evaluates.pure) ?_
    rw [hrow]
    exact Prog.Evaluates.pure
  · rw [hheld document rfl]
    exact Prog.Evaluates.pure.bind Prog.Evaluates.pure

end documents

/-! ## Jobs -/

/-- A job of the document is active. -/
def HasActiveJob (rows : (k : Key) → Option (Row k)) (documentId : Uuid) : Prop :=
  ∃ (id : Uuid) (job : AnalysisJob), rows (.job id) = some job ∧ job.documentId = documentId ∧
    AnalysisJobLifecycle.isActive job.status = true

/-- Of the jobs of the document, only the one under `jobId` may be active. -/
def OnlyActiveJob (rows : (k : Key) → Option (Row k)) (documentId jobId : Uuid) : Prop :=
  ∀ (id : Uuid) (job : AnalysisJob), id ≠ jobId → rows (.job id) = some job →
    job.documentId = documentId → AnalysisJobLifecycle.isActive job.status = false

/-- A new job without a key clashes with no job that is over. -/
theorem AnalysisJob.clash_eq_false {job job' : AnalysisJob} (hkey : job.idempotencyKey = none)
    (hactive : job'.documentId = job.documentId →
      AnalysisJobLifecycle.isActive job'.status = false) : job.clash job' = false := by
  by_cases hdocument : job'.documentId = job.documentId
  · simp [AnalysisJob.clash, hkey, hactive hdocument]
  · simp [AnalysisJob.clash, Ne.symm hdocument]

/-- A job without a key, where no other job of its document is active. -/
theorem free_job {jobId : Uuid} {job : AnalysisJob} (hkey : job.idempotencyKey = none)
    (honly : OnlyActiveJob a.seen job.documentId jobId) : a.Free (.job jobId) job := by
  intro k v hne hrow
  cases k with
  | job id =>
      refine AnalysisJob.clash_eq_false hkey fun hdocument => ?_
      exact honly id v (fun h => hne (congrArg Key.job h)) hrow hdocument
  | document _ | suggestion _ | jobSource _ _ | source _ | documentSource _ _ => rfl

/-- The search for an active job finds one if there is one. -/
theorem answers_getActiveByDocumentId {documentId : Uuid} :
    (AnalysisJobRepository.getActiveByDocumentId documentId).Answers t a
      (fun found => found.isSome = true ↔ HasActiveJob a.seen documentId) a := by
  refine Prog.Answers.find.bind fun rows hrows => Prog.Evaluates.pure.answers ?_
  rw [List.getLast?_isSome]
  constructor
  · intro hne
    obtain ⟨job, hjob⟩ := List.exists_mem_of_ne_nil _ hne
    have hseen := (hrows _ _).mp (AnalysisJobRepository.mem_jobs.mp hjob)
    simp only [Bool.and_eq_true, decide_eq_true_eq] at hseen
    exact ⟨job.id, job.row, hseen.1, hseen.2.1, hseen.2.2⟩
  · rintro ⟨id, job, hrow, hdocument, hactive⟩
    refine List.ne_nil_of_mem (a := (⟨id, job⟩ : Loaded AnalysisJob)) (AnalysisJobRepository.mem_jobs.mpr ?_)
    refine (hrows _ _).mpr ⟨hrow, ?_⟩
    simp [hdocument, hactive]

/-- Inserting a job under the identifier that is drawn for it. -/
theorem evaluates_createForDocument (document : Loaded Document)
    (hnew : a.seen (.job (t, a.drawn)) = none) (hidle : ¬ HasActiveJob a.seen document.id) :
    (AnalysisJobRepository.createForDocument document .pending none).Evaluates t a
      (.ok ⟨(t, a.drawn), { documentId := document.id }⟩)
      (a.draw.write (.job (t, a.drawn))
        (some ({ documentId := document.id } : AnalysisJob))) := by
  refine Prog.Evaluates.draw.bind ?_
  refine Prog.Evaluates.bind (Prog.Evaluates.insert hnew (free_job rfl ?_))
    Prog.Evaluates.pure
  intro id job _ hrow hdocument
  by_contra hactive
  exact hidle ⟨id, job, hrow, hdocument, by simpa using hactive⟩

/-! ## A job and its document -/

/-- The row of a job whose attributes in the session are `job`. Only the history variable of the
row is not among them. -/
def AnalysisJob.withBasis (job : AnalysisJob) (basis : Basis) : AnalysisJob := { job with basis }

/-- Flushing the attributes of a job into its row. -/
theorem evaluates_flushJob {id : Uuid} {copy : AnalysisJob} {basis : Basis} (new : AnalysisJob)
    (hrow : a.seen (.job id) = some (copy.withBasis basis)) (hkey : new.idempotencyKey = none)
    (honly : OnlyActiveJob a.seen new.documentId id) :
    (flushJob ⟨id, copy⟩ new).Evaluates t a (.ok ⟨id, new⟩)
      (a.write (.job id) (some (new.withBasis
        (if new.status = copy.status then basis else { jobStatus := some copy.status })))) := by
  dsimp only [flushJob]
  split
  · rename_i hsame
    subst hsame
    rw [if_pos rfl, ← hrow, View.write_seen_self]
    exact Prog.Evaluates.pure
  · have honto : AnalysisJob.onto copy new (copy.withBasis basis) = new.withBasis
        (if new.status = copy.status then basis else { jobStatus := some copy.status }) := by
      simp only [AnalysisJob.onto, AnalysisJob.withBasis, column_loaded]
    rw [← honto]
    refine (Prog.Evaluates.update hrow rfl ?_).bind
      (Prog.Evaluates.pure.bind Prog.Evaluates.pure)
    rw [honto]
    exact free_job hkey honly

/-- Documents and jobs have different keys. -/
theorem Key.document_ne_job {documentId jobId : Uuid} : Key.document documentId ≠ .job jobId :=
  nofun

/-- Jobs and documents have different keys. -/
theorem Key.job_ne_document {documentId jobId : Uuid} : Key.job jobId ≠ .document documentId :=
  nofun

/-- A job is the current one of its document and the only one that may be active; `job` is what the
session has of it, `document` is the row of the document. -/
structure Tied (a : View Row) (jobId documentId : Uuid) (job : AnalysisJob)
    (document : Document) : Prop where
  job_row : ∃ basis, a.seen (.job jobId) = some (job.withBasis basis)
  document_row : a.seen (.document documentId) = some document
  owner : job.documentId = documentId
  current : document.currentAnalysisJobId = some jobId
  unkeyed : job.idempotencyKey = none
  only : OnlyActiveJob a.seen documentId jobId

/-- The view after a job and its document were written and committed. -/
def settled (a : View Row) (jobId documentId : Uuid) (job : AnalysisJob) (document : Document) :
    View Row :=
  ((a.write (.job jobId) (some job)).write (.document documentId) (some document)).commit

section settled

variable {jobId documentId : Uuid} {job job' : AnalysisJob} {document document' : Document}

/-- The job and its document are seen. -/
theorem settled_seen : (settled a jobId documentId job document).seen =
    Function.update (Function.update a.seen (.job jobId) (some job)) (.document documentId)
      (some document) := rfl

/-- Everything is committed. -/
theorem clean_settled : (settled a jobId documentId job document).Clean := View.clean_commit

/-- Settling twice is settling the second. -/
theorem settled_settled :
    settled (settled a jobId documentId job document) jobId documentId job' document' =
      settled a jobId documentId job' document' := by
  refine View.commit_congr ?_ rfl rfl
  rw [View.write_seen, View.write_seen, settled_seen,
    Function.update_comm Key.document_ne_job,
    Function.update_idem, Function.update_idem]
  rfl

/-- Writing the job alone. -/
theorem commit_write_job (h : a.seen (.document documentId) = some document) :
    (a.write (.job jobId) (some job)).commit = settled a jobId documentId job document := by
  have hrow : (a.write (.job jobId) (some job)).seen (.document documentId) = some document := by
    rw [View.write_seen, Function.update_of_ne Key.document_ne_job, h]
  rw [settled, ← hrow, View.write_seen_self]

/-- A settled job is the current one of its document. -/
theorem tied_settled (howner : job.documentId = documentId)
    (hcurrent : document.currentAnalysisJobId = some jobId) (hkey : job.idempotencyKey = none)
    (honly : OnlyActiveJob a.seen documentId jobId) (basis : Basis) :
    Tied (settled a jobId documentId (job.withBasis basis) document) jobId documentId job
      document where
  job_row := by
    refine ⟨basis, ?_⟩
    rw [settled_seen, Function.update_of_ne Key.job_ne_document, Function.update_self]
  document_row := by rw [settled_seen, Function.update_self]
  owner := howner
  current := hcurrent
  unkeyed := hkey
  only := by
    intro id row hne hrow
    rw [settled_seen, Function.update_of_ne Key.job_ne_document,
      Function.update_of_ne fun h => hne (Key.job.inj h)] at hrow
    exact honly id row hne hrow

end settled

/-- The row of the document of a job whose status has become `target`. -/
def Document.follow (jobId : Uuid) (target : AnalysisJobStatus) (document : Document) : Document :=
  document.withStatus (AnalysisJobLifecycle.documentStatusFor target false)
    { currentJob := some jobId, documentStatus := some document.status }

/-- Changing the status of a job changes the status of its document with it. -/
theorem Tied.evaluates_setJobStatus {jobId documentId : Uuid} {job : AnalysisJob}
    {document : Document} (h : Tied a jobId documentId job document) (target : AnalysisJobStatus)
    (errorCode errorMessage : Option String) (hlegal : target ∈ jobTransitions job.status)
    (hdocument : AnalysisJobLifecycle.documentStatusFor target false ∈
      documentTransitions document.status)
    (hne : AnalysisJobLifecycle.documentStatusFor target false ≠ document.status) :
    (setJobStatus ⟨jobId, job⟩ ⟨documentId, document⟩ target errorCode errorMessage).Evaluates t a
      (.ok (⟨jobId, AnalysisJobRepository.withStatus job target errorCode errorMessage a.clock⟩,
        ⟨documentId, document.follow jobId target⟩))
      ((a.write (.job jobId) (some ((AnalysisJobRepository.withStatus job target errorCode
        errorMessage a.clock).withBasis { jobStatus := some job.status }))).write
          (.document documentId) (some (document.follow jobId target))) := by
  have htransition : jobTransition job.status target = pure target := by
    simp only [jobTransition, AnalysisJobLifecycle.transition_eq_some.mpr ⟨rfl, hlegal⟩]
  have hstatus : (AnalysisJobRepository.withStatus job target errorCode errorMessage
      a.clock).status ≠ job.status := by
    change target ≠ job.status
    rintro rfl
    revert hlegal
    cases job.status <;> simp [jobTransitions]
  obtain ⟨basis, hrow⟩ := h.job_row
  have hflush := evaluates_flushJob (t := t)
    (AnalysisJobRepository.withStatus job target errorCode errorMessage a.clock) hrow h.unkeyed
    (h.owner ▸ h.only)
  rw [if_neg hstatus] at hflush
  dsimp only [setJobStatus]
  rw [htransition]
  refine Prog.Evaluates.pure.bind ((Prog.Evaluates.now.bind hflush).bind ?_)
  rw [if_pos h.current]
  refine (evaluates_setDocumentStatus ?_ hdocument hne).bind Prog.Evaluates.pure
  rw [View.write_seen, Function.update_of_ne Key.document_ne_job, h.document_row]

/-! ## Dispatching a job -/

/-- What the session has of a job after its dispatch. -/
def dispatchedJob (run : EnqueueRun) (clock : ℕ) (job : AnalysisJob) : AnalysisJob :=
  let dispatched := AnalysisJobRepository.withStatus job .dispatched none none clock
  match run with
  | .accepted taskId => { dispatched with celeryTaskId := some taskId }
  | .failed message _ =>
      AnalysisJobRepository.withStatus dispatched .failed (some "QUEUE_UNAVAILABLE")
        (some message) clock

/-- What the last change of its status was decided on. -/
def dispatchBasis : EnqueueRun → Basis
  | .accepted _ => { jobStatus := some .pending }
  | .failed _ _ => { jobStatus := some .dispatched }

/-- The document of a job after its dispatch. -/
def dispatchedDocument (run : EnqueueRun) (jobId : Uuid) (document : Document) : Document :=
  match run with
  | .accepted _ => document.follow jobId .dispatched
  | .failed _ _ => (document.follow jobId .dispatched).follow jobId .failed

/-- The sources are listed, whatever they are. -/
theorem answers_listForAnalysis {projectId documentId : Uuid} :
    (SourceRepository.listForAnalysis projectId documentId).Answers t a (fun _ => True) a :=
  Prog.Answers.bind (R := fun _ => True)
    (Prog.Answers.find.bind fun _ _ => Prog.Evaluates.pure.answers trivial) fun _ _ =>
      Prog.Answers.find.bind fun _ _ => Prog.Evaluates.pure.answers trivial

section dispatch

variable {jobId documentId : Uuid} {job : AnalysisJob} {document : Document}

/-- The first transaction of a dispatch: the sources are read, the job becomes `dispatched`. -/
theorem Tied.answers_markDispatched (h : Tied a jobId documentId job document)
    (hjob : job.status = .pending) (hdocument : document.status = .draft)
    {held : Option (Loaded Document)}
    (hheld : ∀ object, held = some object → object = ⟨documentId, document⟩) :
    (withUow (do
      let document ← documentOf job.documentId held
      let sourceIds ← SourceRepository.listForAnalysis document.row.projectId document.id
      let (job, document) ← setJobStatus ⟨jobId, job⟩ document .dispatched none none
      commit
      pure (job, document, sourceIds))).Answers t a
      (fun x =>
        x.1 = ⟨jobId, AnalysisJobRepository.withStatus job .dispatched none none a.clock⟩ ∧
          x.2.1 = ⟨documentId, document.follow jobId .dispatched⟩)
      (settled a jobId documentId ((AnalysisJobRepository.withStatus job .dispatched none none
        a.clock).withBasis { jobStatus := some .pending }) (document.follow jobId .dispatched)) := by
  have hset := h.evaluates_setJobStatus (t := t) .dispatched none none
    (by simp [hjob, jobTransitions])
    (by simp [hdocument, AnalysisJobLifecycle.documentStatusFor, documentTransitions])
    (by simp [hdocument, AnalysisJobLifecycle.documentStatusFor])
  rw [hjob] at hset
  have hdocumentOf := (evaluates_documentOf (t := t) h.document_row hheld).answers
    (R := (· = (⟨documentId, document⟩ : Loaded Document))) rfl
  refine Prog.Answers.tryCatch ?_
  rw [h.owner]
  refine hdocumentOf.bind ?_
  rintro object rfl
  refine answers_listForAnalysis.bind fun sourceIds _ => ?_
  refine Prog.Evaluates.answers (x := (_, _, sourceIds)) ?_ ⟨rfl, rfl⟩
  exact hset.bind (Prog.Evaluates.commit.bind Prog.Evaluates.pure)

/-- The last transaction of a dispatch: the task id. -/
theorem Tied.evaluates_setCeleryTaskId (h : Tied a jobId documentId job document) {basis : Basis}
    (hrow : a.seen (.job jobId) = some (job.withBasis basis)) (taskId : String) :
    (withUow (do
      let job ← AnalysisJobRepository.setCeleryTaskId ⟨jobId, job⟩ taskId
      commit
      pure job)).Evaluates t a (.ok ⟨jobId, { job with celeryTaskId := some taskId }⟩)
      (settled a jobId documentId
        (({ job with celeryTaskId := some taskId } : AnalysisJob).withBasis basis) document) := by
  have hflush := evaluates_flushJob (t := t) { job with celeryTaskId := some taskId } hrow h.unkeyed
    (h.owner ▸ h.only)
  rw [if_pos rfl] at hflush
  rw [← commit_write_job h.document_row]
  exact evaluates_withUow (hflush.bind (Prog.Evaluates.commit.bind Prog.Evaluates.pure))

/-- A queue that is not there ends the job and the document's analysis. -/
theorem Tied.evaluates_markQueueUnavailable (h : Tied a jobId documentId job document)
    (hjob : job.status = .dispatched) (hdocument : document.status = .inProgress)
    (message : String) :
    (markQueueUnavailable ⟨jobId, job⟩ (some ⟨documentId, document⟩) message).Evaluates t a
      (.ok ⟨jobId, AnalysisJobRepository.withStatus job .failed (some "QUEUE_UNAVAILABLE")
        (some message) a.clock⟩)
      (settled a jobId documentId ((AnalysisJobRepository.withStatus job .failed
        (some "QUEUE_UNAVAILABLE") (some message) a.clock).withBasis
          { jobStatus := some .dispatched }) (document.follow jobId .failed)) := by
  have hset := h.evaluates_setJobStatus (t := t) .failed (some "QUEUE_UNAVAILABLE") (some message)
    (by simp [hjob, jobTransitions])
    (by simp [hdocument, AnalysisJobLifecycle.documentStatusFor, documentTransitions])
    (by simp [hdocument, AnalysisJobLifecycle.documentStatusFor])
  rw [hjob] at hset
  have hdocumentOf : (documentOf job.documentId (some ⟨documentId, document⟩)).Evaluates t a
      (.ok ⟨documentId, document⟩) a :=
    Prog.Evaluates.pure.bind Prog.Evaluates.pure
  exact evaluates_withUow
    (hdocumentOf.bind (hset.bind (Prog.Evaluates.commit.bind Prog.Evaluates.pure)))

/-- A job that its session has created goes to the queue, or fails if the queue does. -/
theorem Tied.evaluates_dispatchJob (h : Tied a jobId documentId job document)
    (hjob : job.status = .pending) (hdocument : document.status = .draft)
    {held : Option (Loaded Document)}
    (hheld : ∀ object, held = some object → object = ⟨documentId, document⟩) (run : EnqueueRun) :
    (dispatchJob ⟨jobId, job⟩ held run).Evaluates t a
      (.ok ⟨jobId, dispatchedJob run a.clock job⟩)
      (settled a jobId documentId ((dispatchedJob run a.clock job).withBasis (dispatchBasis run))
        (dispatchedDocument run jobId document)) := by
  have hfirst := h.answers_markDispatched (t := t) hjob hdocument hheld
  have htied : Tied
      (settled a jobId documentId ((AnalysisJobRepository.withStatus job .dispatched none none
        a.clock).withBasis { jobStatus := some .pending }) (document.follow jobId .dispatched))
      jobId documentId (AnalysisJobRepository.withStatus job .dispatched none none a.clock)
      (document.follow jobId .dispatched) := by
    apply tied_settled
    · exact h.owner
    · exact h.current
    · exact h.unkeyed
    · exact h.only
  dsimp only [dispatchJob]
  rw [if_pos (by simp [AnalysisJobLifecycle.canDispatch, hjob])]
  refine hfirst.evaluates ?_
  rintro ⟨_, _, sourceIds⟩ ⟨rfl, rfl⟩
  cases run with
  | accepted taskId =>
      refine (Prog.Evaluates.send _).bind ?_
      have hend := htied.evaluates_setCeleryTaskId (t := t) (by
        rw [settled_seen, Function.update_of_ne Key.job_ne_document, Function.update_self]) taskId
      rw [settled_settled] at hend
      exact hend
  | failed message delivered =>
      have hsent : ∀ a, (if delivered = true then send (.analysis jobId sourceIds) else pure () :
          Session Unit).Evaluates t a (.ok ()) a := by
        intro a
        split
        · exact Prog.Evaluates.send _
        · exact Prog.Evaluates.pure
      refine (hsent _).bind ?_
      have hend := htied.evaluates_markQueueUnavailable (t := t) rfl rfl message
      rw [settled_settled] at hend
      exact hend

end dispatch

/-! ## Creating a job -/

section create

variable {projectId documentId : Uuid} {force : Bool} {row : Document} {e : DomainError}

/-- Why the analysis of a document is not started, in the order of the checks. -/
inductive Refuses (projectId documentId : Uuid) (force : Bool)
    (rows : (k : Key) → Option (Row k)) : DomainError → Prop
  | notFound (h : ∀ row : Document, rows (.document documentId) = some row →
      row.projectId ≠ projectId) :
      Refuses projectId documentId force rows
        (.documentNotFound s!"Документ {documentId} не найден в проекте {projectId}")
  | invalidStatus {row : Document} (hrow : rows (.document documentId) = some row)
      (hproject : row.projectId = projectId)
      (hstatus : DocumentLifecycle.canStartAnalysis row.status = false) :
      Refuses projectId documentId force rows
        (.invalidDocumentStatus (.cannotStartAnalysis row.status))
  | running {row : Document} (hrow : rows (.document documentId) = some row)
      (hproject : row.projectId = projectId)
      (hstatus : DocumentLifecycle.canStartAnalysis row.status = true)
      (hactive : HasActiveJob rows documentId) :
      Refuses projectId documentId force rows .analysisAlreadyRunning
  | unconfirmed {row : Document} (hrow : rows (.document documentId) = some row)
      (hproject : row.projectId = projectId)
      (hstatus : DocumentLifecycle.canStartAnalysis row.status = true)
      (hidle : ¬ HasActiveJob rows documentId)
      (hconfirm : DocumentLifecycle.analysisNeedsConfirmation row.status = true ∧ force = false) :
      Refuses projectId documentId force rows .analysisConfirmationRequired

/-- The analysis of a document, which has the row `row`, can be started. -/
structure Accepts (projectId documentId : Uuid) (force : Bool)
    (rows : (k : Key) → Option (Row k)) (row : Document) : Prop where
  document : rows (.document documentId) = some row
  project : row.projectId = projectId
  status : DocumentLifecycle.canStartAnalysis row.status = true
  idle : ¬ HasActiveJob rows documentId
  confirmed : ¬ (DocumentLifecycle.analysisNeedsConfirmation row.status = true ∧ force = false)

/-- A start is refused or accepted. -/
theorem refuses_or_accepts (projectId documentId : Uuid) (force : Bool)
    (rows : (k : Key) → Option (Row k)) :
    (∃ e, Refuses projectId documentId force rows e) ∨
      ∃ row, Accepts projectId documentId force rows row := by
  rcases hrow : rows (.document documentId) with _ | row
  · exact .inl ⟨_, .notFound fun row h => (nomatch hrow.symm.trans h)⟩
  by_cases hproject : row.projectId = projectId
  swap
  · refine .inl ⟨_, .notFound fun row' h => ?_⟩
    obtain rfl := Option.some.inj (hrow.symm.trans h)
    exact hproject
  rcases hstatus : DocumentLifecycle.canStartAnalysis row.status with _ | _
  · exact .inl ⟨_, .invalidStatus hrow hproject hstatus⟩
  by_cases hactive : HasActiveJob rows documentId
  · exact .inl ⟨_, .running hrow hproject hstatus hactive⟩
  by_cases hconfirm : DocumentLifecycle.analysisNeedsConfirmation row.status = true ∧ force = false
  · exact .inl ⟨_, .unconfirmed hrow hproject hstatus hactive hconfirm⟩
  · exact .inr ⟨row, hrow, hproject, hstatus, hactive, hconfirm⟩

/-- The row of a document whose new job is `jobId`: a draft. -/
def Document.created (jobId : Uuid) (row : Document) : Document :=
  (if row.status = .draft then row
    else row.withStatus .draft { documentStatus := some row.status }).withCurrentJob (some jobId)

/-- A new job makes its document a draft. -/
theorem Document.created_status (jobId : Uuid) (row : Document) :
    (row.created jobId).status = .draft := by
  unfold Document.created
  split
  · rename_i h
    exact h
  · rfl

/-- Storing the job of a document that may be a draft already. -/
theorem Accepts.evaluates_storeJob (h : Accepts projectId documentId force a.seen row)
    (hnew : a.seen (.job (t, a.drawn)) = none) :
    (storeJob ⟨documentId, row⟩ none).Evaluates t a
      (.ok (.created ⟨(t, a.drawn), { documentId }⟩ ⟨documentId, row.created (t, a.drawn)⟩))
      (settled a.draw (t, a.drawn) documentId { documentId } (row.created (t, a.drawn))) := by
  obtain ⟨draft, hdraft⟩ : ∃ draft, draft = (if row.status = .draft then row
    else row.withStatus .draft { documentStatus := some row.status }) := ⟨_, rfl⟩
  have hsetDraft : (if row.status = .draft then pure ⟨documentId, row⟩
      else setDocumentStatus ⟨documentId, row⟩ .draft { documentStatus := some row.status } :
        Session (Loaded Document)).Evaluates t a (.ok ⟨documentId, draft⟩)
      (a.write (.document documentId) (some draft)) := by
    rw [hdraft]
    split
    · rw [← h.document, View.write_seen_self]
      exact Prog.Evaluates.pure
    · rename_i hne
      refine evaluates_setDocumentStatus h.document ?_ (Ne.symm hne)
      have hstatus := h.status
      revert hstatus
      cases row.status <;> simp [DocumentLifecycle.canStartAnalysis, documentTransitions]
  have hcreate := evaluates_createForDocument (t := t)
    (a := a.write (.document documentId) (some draft)) ⟨documentId, draft⟩
    (by rw [View.write_drawn, View.write_seen, Function.update_of_ne Key.job_ne_document, hnew])
    (by
      rintro ⟨id, job, hrow, hdocument, hactive⟩
      rw [View.write_seen, Function.update_of_ne Key.job_ne_document] at hrow
      exact h.idle ⟨id, job, hrow, hdocument, hactive⟩)
  have hend : (((a.write (.document documentId) (some draft)).draw.write (.job (t, a.drawn))
      (some ({ documentId } : AnalysisJob))).write (.document documentId)
        (some (draft.withCurrentJob (some (t, a.drawn))))).commit =
      settled a.draw (t, a.drawn) documentId { documentId } (row.created (t, a.drawn)) := by
    refine View.commit_congr ?_ rfl rfl
    simp only [View.write_seen, View.draw_seen]
    rw [Function.update_comm Key.document_ne_job, Function.update_idem, hdraft]
    rfl
  dsimp only [storeJob]
  refine hsetDraft.bind (hcreate.bind ((evaluates_setCurrentJob ?_).bind ?_))
  · rw [View.write_seen, Function.update_of_ne Key.document_ne_job, View.draw_seen,
      View.write_seen, Function.update_self]
  · rw [← hend, Document.created, ← hdraft]
    exact Prog.Evaluates.commit.bind Prog.Evaluates.pure

/-- The checks pass, and the job is stored. -/
theorem Accepts.evaluates_createJob (h : Accepts projectId documentId force a.seen row)
    (hnew : a.seen (.job (t, a.drawn)) = none) :
    (createJob projectId documentId none force).Evaluates t a
      (.ok (⟨(t, a.drawn), { documentId }⟩, ⟨documentId, row.created (t, a.drawn)⟩))
      (settled a.draw (t, a.drawn) documentId { documentId } (row.created (t, a.drawn))) := by
  have honce : (createJobOnce projectId documentId none force).Evaluates t a
      (.ok (.created ⟨(t, a.drawn), { documentId }⟩ ⟨documentId, row.created (t, a.drawn)⟩))
      (settled a.draw (t, a.drawn) documentId { documentId } (row.created (t, a.drawn))) := by
    refine evaluates_withUow ((evaluates_getDocumentOrRaise h.document h.project).bind ?_)
    refine Prog.Evaluates.pure.bind ?_
    dsimp only
    rw [if_pos h.status]
    refine answers_getActiveByDocumentId.evaluates fun active hactive => ?_
    cases active with
    | some job => exact absurd (hactive.mp rfl) h.idle
    | none =>
        dsimp only
        rw [if_neg h.confirmed]
        exact h.evaluates_storeJob hnew
  exact (Prog.Evaluates.tryCatch honce).bind Prog.Evaluates.pure

/-- A check fails, and nothing has changed. -/
theorem Refuses.evaluates_createJob (h : Refuses projectId documentId force a.seen e)
    (hclean : a.Clean) :
    (createJob projectId documentId none force).Evaluates t a (.error e) a := by
  have honce : (createJobOnce projectId documentId none force).Evaluates t a (.error e) a := by
    rw [← hclean.rollback]
    refine evaluates_withUow_error ?_
    rw [hclean.rollback]
    cases h with
    | notFound h => exact (evaluates_getDocumentOrRaise_error h).bind_error
    | invalidStatus hrow hproject hstatus =>
        refine (evaluates_getDocumentOrRaise hrow hproject).bind (Prog.Evaluates.pure.bind ?_)
        dsimp only
        rw [if_neg (by simp [hstatus])]
        exact Prog.Evaluates.throw
    | running hrow hproject hstatus hactive =>
        refine (evaluates_getDocumentOrRaise hrow hproject).bind (Prog.Evaluates.pure.bind ?_)
        dsimp only
        rw [if_pos hstatus]
        refine answers_getActiveByDocumentId.evaluates fun active hfound => ?_
        cases active with
        | some job =>
            dsimp only
            rw [if_neg (by simp)]
            exact Prog.Evaluates.throw
        | none => exact absurd (hfound.mpr hactive) (by simp)
    | unconfirmed hrow hproject hstatus hidle hconfirm =>
        refine (evaluates_getDocumentOrRaise hrow hproject).bind (Prog.Evaluates.pure.bind ?_)
        dsimp only
        rw [if_pos hstatus]
        refine answers_getActiveByDocumentId.evaluates fun active hfound => ?_
        cases active with
        | some job => exact absurd (hfound.mp rfl) hidle
        | none =>
            dsimp only
            rw [if_pos hconfirm]
            exact Prog.Evaluates.throw
  refine Prog.Evaluates.bind_error (honce.tryCatch_error ?_)
  cases h <;> exact Prog.Evaluates.throw

/-! ## A start as a whole -/

/-- What a start of the analysis leaves behind: a new job, and its document. -/
def started (t : Process) (documentId : Uuid) (run : EnqueueRun) (a : View Row) (row : Document) :
    View Row :=
  settled a.draw (t, a.drawn) documentId
    ((dispatchedJob run a.clock { documentId }).withBasis (dispatchBasis run))
    (dispatchedDocument run (t, a.drawn) (row.created (t, a.drawn)))

/-- The dispatch of the job that was created a moment ago. -/
theorem Accepts.evaluates_dispatchJob (h : Accepts projectId documentId force a.seen row)
    (held : Bool) (run : EnqueueRun) :
    (dispatchJob ⟨(t, a.drawn), { documentId }⟩
      (if held = true then some ⟨documentId, row.created (t, a.drawn)⟩ else none) run).Evaluates t
      (settled a.draw (t, a.drawn) documentId { documentId } (row.created (t, a.drawn)))
      (.ok ⟨(t, a.drawn), dispatchedJob run a.clock { documentId }⟩)
      (started t documentId run a row) := by
  have htied : Tied
      (settled a.draw (t, a.drawn) documentId (AnalysisJob.withBasis { documentId } {})
        (row.created (t, a.drawn)))
      (t, a.drawn) documentId { documentId } (row.created (t, a.drawn)) := by
    refine tied_settled rfl rfl rfl ?_ {}
    intro id job _ hrow hdocument
    by_contra hactive
    exact h.idle ⟨id, job, hrow, hdocument, by simpa using hactive⟩
  have hheld : ∀ object, (if held = true then some ⟨documentId, row.created (t, a.drawn)⟩
      else none) = some object → object = (⟨documentId, row.created (t, a.drawn)⟩ :
        Loaded Document) := by
    intro object hobject
    split at hobject
    · exact (Option.some.inj hobject).symm
    · cases hobject
  have hend := htied.evaluates_dispatchJob (t := t) rfl (row.created_status _) hheld run
  rw [settled_settled] at hend
  exact hend

/-- **An accepted start** leaves a new job and its document, according to the queue. -/
theorem Accepts.evaluates_startAnalysisJob (h : Accepts projectId documentId force a.seen row)
    (hnew : a.seen (.job (t, a.drawn)) = none) (held : Bool) (run : EnqueueRun) :
    (startAnalysisJob projectId documentId none force held run).Evaluates t a
      (.ok ⟨(t, a.drawn), dispatchedJob run a.clock { documentId }⟩)
      (started t documentId run a row) :=
  Prog.Evaluates.pure.bind ((h.evaluates_createJob hnew).bind (h.evaluates_dispatchJob held run))

/-- **A refused start** raises, and leaves nothing. -/
theorem Refuses.evaluates_startAnalysisJob (h : Refuses projectId documentId force a.seen e)
    (hclean : a.Clean) (held : Bool) (run : EnqueueRun) :
    (startAnalysisJob projectId documentId none force held run).Evaluates t a (.error e) a :=
  Prog.Evaluates.pure.bind (h.evaluates_createJob hclean).bind_error

end create

end SyncBack
