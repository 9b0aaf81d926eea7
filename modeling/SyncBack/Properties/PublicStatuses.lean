import SyncBack.Api.DocumentResponses
import SyncBack.Application.StartRules
import SyncBack.Properties.CoupledStatuses

/-!
# What the public status promises

After every serial run, the status that a client sees says what a start of an analysis would come to:
`public_status_predicts_start`. It differs from the status of the document for a job that waits for
the queue, and lists are filtered by the latter: `listed_statuses`.
-/

namespace SyncBack

open Txn Session AnalysisJobService

variable {t : Process} {a a' : View Row}

/-! ## The current jobs of documents -/

/-- What a dict has under a key is one of its items. -/
theorem mem_of_dictGet {α β : Type} [BEq α] [LawfulBEq α] {items : List (α × β)} {key : α} {b : β}
    (h : dictGet items key = some b) : (key, b) ∈ items := by
  obtain ⟨l₁, l₂, hitems, -⟩ := List.lookup_eq_some_iff.mp h
  rw [← List.mem_reverse, hitems]
  simp

/-- Where no key has two values, a dict gives each its own. -/
theorem dictGet_eq {α β : Type} [BEq α] [LawfulBEq α] {items : List (α × β)} {key : α} {b : β}
    (h : (key, b) ∈ items) (hunique : ∀ b', (key, b') ∈ items → b' = b) :
    dictGet items key = some b := by
  rcases hfound : dictGet items key with _ | b'
  · refine absurd (List.lookup_eq_none_iff.mp hfound (key, b) (List.mem_reverse.mpr h)) ?_
    simp
  · rw [hunique b' (mem_of_dictGet hfound)]

/-- The current job of a document, among the rows. -/
def shownJob (rows : Rows) (row : Document) : Option (Loaded AnalysisJob) :=
  row.currentAnalysisJobId.bind fun jobId => (rows (.job jobId)).map (Loaded.mk jobId)

/-- The jobs that are listed are those with the identifiers. -/
theorem answers_listByIds_iff (jobIds : List Uuid) :
    (AnalysisJobRepository.listByIds jobIds).Answers t a
      (fun jobs => ∀ job, job ∈ jobs ↔ a.seen (.job job.id) = some job.row ∧ job.id ∈ jobIds) a := by
  unfold AnalysisJobRepository.listByIds
  split
  · rename_i hnil
    exact Prog.Evaluates.pure.answers fun job => by simp [hnil]
  · refine Prog.Answers.find.bind fun rows hrows => Prog.Evaluates.pure.answers fun job => ?_
    refine AnalysisJobRepository.mem_jobs.trans ((hrows _ _).trans (and_congr_right fun _ => ?_))
    exact decide_eq_true_iff

/-- **The current jobs of documents**, of which no two have the same one: each document gets its
own. -/
theorem answers_currentAnalysisJobs {documents : List (Loaded Document)}
    (hids : ∀ d ∈ documents, ∀ d' ∈ documents, d.id = d'.id → d = d')
    (hjobs : ∀ d ∈ documents, ∀ d' ∈ documents, ∀ jobId, d.row.currentAnalysisJobId = some jobId →
      d'.row.currentAnalysisJobId = some jobId → d = d') :
    (DocumentService.currentAnalysisJobs documents).Answers t a
      (fun jobs => ∀ d ∈ documents, jobs d.id = shownJob a.seen d.row) a := by
  obtain ⟨items, hitems⟩ : ∃ items, items = documents.filterMap fun document =>
      document.row.currentAnalysisJobId.map (·, document.id) := ⟨_, rfl⟩
  have hmem : ∀ {jobId documentId}, (jobId, documentId) ∈ items ↔
      ∃ d ∈ documents, d.row.currentAnalysisJobId = some jobId ∧ d.id = documentId := by
    intro jobId documentId
    rw [hitems]
    simp only [List.mem_filterMap, Option.map_eq_some_iff, Prod.mk.injEq, ↓existsAndEq, true_and]
  unfold DocumentService.currentAnalysisJobs
  rw [← hitems]
  dsimp only
  split
  · rename_i hnil
    refine Prog.Evaluates.pure.answers fun d hd => ?_
    rcases hcurrent : d.row.currentAnalysisJobId with _ | jobId
    · simp [shownJob, hcurrent]
    · have hitem := hmem.mpr ⟨d, hd, hcurrent, rfl⟩
      rw [hnil] at hitem
      cases hitem
  · refine (answers_listByIds_iff _).tryCatch.bind fun jobs hfound =>
      Prog.Evaluates.pure.answers fun d hd => ?_
    -- the entries of the dict are the jobs in view that some document has
    have hentry : ∀ {documentId : Uuid} {job : Loaded AnalysisJob},
        (documentId, job) ∈ (jobs.filterMap fun job => (dictGet items job.id).map (·, job)) →
          a.seen (.job job.id) = some job.row ∧ (job.id, documentId) ∈ items := by
      intro documentId job hin
      obtain ⟨job', hjob, hsome⟩ := List.mem_filterMap.mp hin
      obtain ⟨_, hget, hpair⟩ := Option.map_eq_some_iff.mp hsome
      cases hpair
      exact ⟨((hfound _).mp hjob).1, mem_of_dictGet hget⟩
    have hown : ∀ {jobId : Uuid}, d.row.currentAnalysisJobId = some jobId →
        dictGet items jobId = some d.id := fun hcurrent =>
      dictGet_eq (hmem.mpr ⟨d, hd, hcurrent, rfl⟩) fun documentId hin => by
        obtain ⟨d', hd', hcurrent', rfl⟩ := hmem.mp hin
        rw [hjobs d hd d' hd' _ hcurrent hcurrent']
    rcases hget : dictGet _ d.id with _ | job
    · symm
      refine Option.bind_eq_none_iff.mpr fun jobId hcurrent => Option.map_eq_none_iff.mpr ?_
      rcases hrow : a.seen (.job jobId) with _ | row
      · rfl
      · have hjob : (⟨jobId, row⟩ : Loaded AnalysisJob) ∈ jobs :=
          (hfound _).mpr ⟨hrow, List.mem_map.mpr ⟨_, hmem.mpr ⟨d, hd, hcurrent, rfl⟩, rfl⟩⟩
        have hin : (d.id, (⟨jobId, row⟩ : Loaded AnalysisJob)) ∈
            jobs.filterMap fun job => (dictGet items job.id).map (·, job) :=
          List.mem_filterMap.mpr ⟨_, hjob, by rw [hown hcurrent]; rfl⟩
        refine absurd (List.lookup_eq_none_iff.mp hget _ (List.mem_reverse.mpr hin)) ?_
        simp
    · obtain ⟨hseen, hin⟩ := hentry (mem_of_dictGet hget)
      obtain ⟨d', hd', hcurrent, hid⟩ := hmem.mp hin
      obtain rfl := hids d' hd' d hd hid
      simp [shownJob, hcurrent, hseen]

/-! ## The response of one document -/

/-- The answer to a request for a document of the project. -/
theorem evaluates_getDocument {projectId documentId : Uuid} {row : Document}
    (hrow : a.seen (.document documentId) = some row) (hproject : row.projectId = projectId) :
    (Api.getDocument projectId documentId).Evaluates t a
      (.ok (documentResponse ⟨documentId, row⟩ (shownJob a.seen row))) a := by
  have hdocument : (DocumentService.getDocument projectId documentId).Evaluates t a
      (.ok ⟨documentId, row⟩) a := by
    refine (evaluates_withUow (Prog.Evaluates.get.bind Prog.Evaluates.pure)).bind ?_
    rw [hrow]
    dsimp only [Option.map_some]
    rw [if_pos hproject]
    exact Prog.Evaluates.pure
  refine hdocument.bind ((answers_currentAnalysisJobs ?_ ?_).evaluates fun jobs hjobs => ?_)
  · simp
  · simp
  · rw [hjobs _ (List.mem_singleton_self _)]
    exact Prog.Evaluates.pure

/-- Without the document in the project there is a 404. -/
theorem evaluates_getDocument_error {projectId documentId : Uuid}
    (h : ∀ row : Document, a.seen (.document documentId) = some row → row.projectId ≠ projectId) :
    (Api.getDocument projectId documentId).Evaluates t a
      (.error (.documentNotFound s!"Документ {documentId} не найден в проекте {projectId}")) a := by
  refine Prog.Evaluates.bind_error ?_
  refine (evaluates_withUow (Prog.Evaluates.get.bind Prog.Evaluates.pure)).bind ?_
  rcases hrow : a.seen (.document documentId) with _ | row
  · exact Prog.Evaluates.throw
  · dsimp only [Option.map_some]
    rw [if_neg (h row hrow)]
    exact Prog.Evaluates.throw

/-! ## Sessions one after another -/

/-- A session that runs alone, between quiet states. -/
theorem closing_runAlone {α : Type} {body : Session α} {s : AppDb} {r : Except DomainError α}
    (hquiet : s.Quiet)
    (h : body.Evaluates t ⟨s.committed, s.committed, s.drawn t, s.clock⟩ r a') :
    ∃ s', (closing body).runAlone t s = some (r, s') ∧ s'.Quiet ∧ s'.committed = a'.committed := by
  have hclosing : (closing body).Evaluates t ⟨s.committed, s.committed, s.drawn t, s.clock⟩ r
      a'.rollback := by
    cases r with
    | ok x => exact (evaluates_withUow h).bind (Prog.Evaluates.rollback.bind Prog.Evaluates.pure)
    | error e => exact (evaluates_withUow_error h).bind_error
  obtain ⟨s', hrun, hs'⟩ := hclosing s (Db.Shows.of_quiet hquiet t)
  exact ⟨s', hrun, (Prog.Ensures.quiet hquiet idle_closing).of_runAlone hrun, hs'.committed⟩

/-- A session that answers in its view answers when it runs alone. -/
theorem closing_answers {α : Type} {body : Session α} {R : α → Prop} {s : AppDb} (hquiet : s.Quiet)
    (h : body.Answers t ⟨s.committed, s.committed, s.drawn t, s.clock⟩ R a') :
    ∃ x s', R x ∧ (closing body).runAlone t s = some (.ok x, s') ∧ s'.Quiet ∧
      s'.committed = a'.committed := by
  have hclosing : (closing body).Answers t ⟨s.committed, s.committed, s.drawn t, s.clock⟩ R
      a'.rollback :=
    h.tryCatch.bind fun x hx => Prog.Evaluates.answers
      (Prog.Evaluates.rollback.bind (Prog.Evaluates.pure (x := x))) hx
  obtain ⟨x, s', hx, hrun, hs'⟩ := hclosing s (Db.Shows.of_quiet hquiet t)
  exact ⟨x, s', hx, hrun, (Prog.Ensures.quiet hquiet idle_closing).of_runAlone hrun, hs'.committed⟩

/-! ## What is shown -/

section shown

variable {rows : Rows} {documentId : Uuid} {row : Document}

/-- The response to a request for a document that has the row. -/
abbrev shownOf (rows : Rows) (documentId : Uuid) (row : Document) : DocumentResponse :=
  documentResponse ⟨documentId, row⟩ (shownJob rows row)

/-- **A document shown as in progress has an active job**; any other one is shown with its own status
and has none. -/
theorem shown_cases (hS : rows.statuses.Coupled) (hrow : rows (.document documentId) = some row) :
    ((shownOf rows documentId row).status = .inProgress ∧ HasActiveJob rows documentId ∧
        (row.status = .draft ∨ row.status = .inProgress) ∧
        ∃ jobId state, (row.status = .draft → state = .pending) ∧
          (shownOf rows documentId row).analysis =
            some { jobId := some jobId, state, canRetry := false }) ∨
      ((shownOf rows documentId row).status = row.status ∧ row.status ≠ .inProgress ∧
        ¬ HasActiveJob rows documentId ∧
        ∀ analysis, (shownOf rows documentId row).analysis = some analysis →
          analysis.canRetry = true) := by
  have hidle : (∀ jobId (job : AnalysisJob), row.currentAnalysisJobId = some jobId →
      rows (.job jobId) = some job → AnalysisJobLifecycle.isActive job.status = false) →
      ¬ HasActiveJob rows documentId := by
    rintro hcurrent ⟨jobId, job, hjob, rfl, hactive⟩
    obtain ⟨x, hx, hx'⟩ := hS.active jobId job.state (Rows.statuses_job hjob) hactive
    obtain rfl := Option.some.inj (hx.symm.trans (Rows.statuses_document hrow))
    rw [hcurrent jobId job hx' hjob] at hactive
    cases hactive
  rcases hcurrent : row.currentAnalysisJobId with _ | jobId
  · have hdraft : row.status = .draft := hS.draft _ _ (Rows.statuses_document hrow) hcurrent
    right
    have hnone : shownJob rows row = none := by simp [shownJob, hcurrent]
    refine ⟨?_, ?_, hidle fun jobId job hjob => ?_, ?_⟩
    · simp [shownOf, documentResponse, hnone, resolveDocumentPublicStatusAndAnalysis]
    · simp [hdraft]
    · simp [hcurrent] at hjob
    · simp [shownOf, documentResponse, hnone, resolveDocumentPublicStatusAndAnalysis]
  · obtain ⟨job, hjob, howner, hmatches⟩ := exists_current hS hrow hcurrent
    have hsome : shownJob rows row = some ⟨jobId, job⟩ := by simp [shownJob, hcurrent, hjob]
    have hactive : AnalysisJobLifecycle.isActive job.status = true → HasActiveJob rows documentId :=
      fun h => ⟨jobId, job, hjob, howner, h⟩
    have hquiet : AnalysisJobLifecycle.isActive job.status = false →
        ¬ HasActiveJob rows documentId := fun h => hidle fun jobId' job' hcurrent' hjob' => by
      obtain rfl := Option.some.inj (hcurrent.symm.trans hcurrent')
      obtain rfl := Option.some.inj (hjob.symm.trans hjob')
      exact h
    simp only [shownOf, documentResponse, hsome, resolveDocumentPublicStatusAndAnalysis]
    rcases hstatus : job.status <;> rw [hstatus] at hmatches hactive hquiet
    case pending =>
      exact .inl ⟨rfl, hactive rfl, .inl hmatches, jobId, .pending, fun _ => rfl, rfl⟩
    case dispatched | processing =>
      refine .inl ⟨rfl, hactive rfl, .inr hmatches, jobId, .processing, fun h => ?_, rfl⟩
      rw [show row.status = .inProgress from hmatches] at h
      cases h
    case failed | cancelled =>
      refine .inr ⟨hmatches.symm, ?_, hquiet rfl, ?_⟩
      · rw [show row.status = .draft from hmatches]
        decide
      · rintro analysis ⟨⟩
        rfl
    case success | partialSuccess =>
      refine .inr ⟨rfl, ?_, hquiet rfl, ?_⟩
      · rcases hmatches with h | h <;> rw [h] <;> decide
      · rintro analysis ⟨⟩
        rfl

end shown

/-! ## What a start comes to -/

/-- What a start comes to where a client sees the status. -/
inductive Predicted (force : Bool) : DocumentStatus → Except DomainError (Loaded AnalysisJob) → Prop
  /-- The job waits for the queue, and the document is still a draft. -/
  | waiting : Predicted force .inProgress (.error .analysisAlreadyRunning)
  | begun : Predicted force .inProgress
      (.error (.invalidDocumentStatus (.cannotStartAnalysis .inProgress)))
  | unconfirmed (hforce : force = false) :
      Predicted force .ready (.error .analysisConfirmationRequired)
  | started {status job} (hstatus : status ≠ .inProgress) (hready : status = .ready → force = true) :
      Predicted force status (.ok job)

/-- What is shown of a document whose job has been handed to the queue. -/
def shownAfterStart (jobId : Uuid) : EnqueueRun → DocumentStatus × Option AnalysisStateResponse
  | .accepted _ => (.inProgress, some { jobId := some jobId, state := .processing, canRetry := false })
  | .failed message _ =>
      (.draft, some
        { jobId := some jobId, state := .failed, errorCode := some "QUEUE_UNAVAILABLE"
          errorMessage := some (textOr (some message) "Ошибка выполнения анализа") })

section start

variable {rows : Rows} {projectId documentId : Uuid} {row : Document}

/-- The checks of a start, in the terms of what is shown. -/
theorem accepts_or_refuses_of_shown (hS : rows.statuses.Coupled)
    (hrow : rows (.document documentId) = some row) (hproject : row.projectId = projectId)
    (force : Bool) :
    (Accepts projectId documentId force rows row ∧
      ∀ job, Predicted force (shownOf rows documentId row).status (.ok job)) ∨
      ∃ e, Refuses projectId documentId force rows e ∧
        Predicted force (shownOf rows documentId row).status (.error e) := by
  rcases shown_cases hS hrow with ⟨hshown, hactive, hstatus, -⟩ | ⟨hshown, hstatus, hidle, -⟩
  · rw [hshown]
    right
    rcases hstatus with hstatus | hstatus
    · exact ⟨_, .running hrow hproject (by rw [hstatus]; decide) hactive, .waiting⟩
    · refine ⟨_, .invalidStatus hrow hproject (by rw [hstatus]; decide), ?_⟩
      rw [hstatus]
      exact .begun
  · rw [hshown]
    have hcan : DocumentLifecycle.canStartAnalysis row.status = true := by
      revert hstatus
      cases row.status <;> decide
    by_cases hconfirm : DocumentLifecycle.analysisNeedsConfirmation row.status = true ∧ force = false
    · refine .inr ⟨_, .unconfirmed hrow hproject hcan hidle hconfirm, ?_⟩
      rw [show row.status = .ready from by simpa [DocumentLifecycle.analysisNeedsConfirmation]
        using hconfirm.1]
      exact .unconfirmed hconfirm.2
    · refine .inl ⟨⟨hrow, hproject, hcan, hidle, hconfirm⟩, fun job => .started hstatus ?_⟩
      intro hready
      simpa [hready, DocumentLifecycle.analysisNeedsConfirmation] using hconfirm

/-- A document that has been started is shown with its new job. -/
theorem shown_started (documentId : Uuid) (row : Document) (run : EnqueueRun) :
    let document := dispatchedDocument run (t, a.drawn) (row.created (t, a.drawn))
    (started t documentId run a row).seen (.document documentId) = some document ∧
      document.projectId = row.projectId ∧
      ((shownOf (started t documentId run a row).seen documentId document).status,
        (shownOf (started t documentId run a row).seen documentId document).analysis) =
          shownAfterStart (t, a.drawn) run := by
  have hjob : (started t documentId run a row).seen (.job (t, a.drawn)) =
      some ((dispatchedJob run a.clock { documentId }).withBasis (dispatchBasis run)) := by
    rw [started, settled_seen, Function.update_of_ne Key.job_ne_document, Function.update_self]
  have hcurrent : (dispatchedDocument run (t, a.drawn)
      (row.created (t, a.drawn))).currentAnalysisJobId = some (t, a.drawn) := by
    cases run <;> rfl
  refine ⟨by rw [started, settled_seen, Function.update_self], ?_, ?_⟩
  · cases run <;> simp only [dispatchedDocument, Document.created] <;> split <;> rfl
  · simp only [shownOf, shownJob, hcurrent, Option.bind_some, hjob, Option.map_some]
    cases run <;> rfl

end start

/-! ## Lists -/

section lists

variable {projectId : Uuid} {status : Option DocumentStatus}

/-- A search for the documents of a project finds those in view. -/
theorem answers_withStatus :
    (DocumentRepository.withStatus projectId status).Answers t a
      (fun found => ∀ d ∈ found, a.seen (.document d.id) = some d.row ∧
        d.row.projectId = projectId ∧ ∀ filter, status = some filter → d.row.status = filter) a := by
  refine Prog.Answers.find.bind fun rows hrows => Prog.Evaluates.pure.answers fun d hd => ?_
  obtain ⟨⟨k, v⟩, hmem, hk⟩ := List.mem_filterMap.mp hd
  cases k with
  | document id =>
      cases hk
      obtain ⟨hseen, hcondition⟩ := (hrows _ _).mp hmem
      simp only [Bool.and_eq_true, decide_eq_true_eq] at hcondition
      refine ⟨hseen, hcondition.1, ?_⟩
      rintro filter rfl
      simpa using hcondition.2
  | job _ | suggestion _ | jobSource _ _ | source _ | documentSource _ _ => cases hk

/-- **A list**: each document of the page as it is shown by itself. -/
theorem answers_listDocuments (hS : (Rows.statuses a.seen).Coupled)
    {page : List (Loaded Document) → List (Loaded Document)} (hpage : ∀ found, page found ⊆ found) :
    (Api.listDocuments page projectId status).Answers t a
      (fun x => ∀ shown ∈ x.1, ∃ row : Document, a.seen (.document shown.id) = some row ∧
        row.projectId = projectId ∧ (∀ filter, status = some filter → row.status = filter) ∧
          shown = shownOf a.seen shown.id row) a := by
  have hfound : (DocumentService.listDocuments page projectId status).Answers t a
      (fun x => ∀ d ∈ x.1, a.seen (.document d.id) = some d.row ∧ d.row.projectId = projectId ∧
        ∀ filter, status = some filter → d.row.status = filter) a := by
    refine Prog.Answers.tryCatch (answers_withStatus.bind fun found hfound => ?_)
    have htotal : (DocumentRepository.countForProject projectId status).Answers t a
        (fun _ => True) a :=
      answers_withStatus.bind fun found _ => Prog.Evaluates.pure.answers trivial
    refine htotal.bind fun total _ => ?_
    exact Prog.Evaluates.pure.answers fun d hd => hfound d (hpage found hd)
  refine hfound.bind fun x hx => ?_
  have hids : ∀ d ∈ x.1, ∀ d' ∈ x.1, d.id = d'.id → d = d' := by
    intro d hd d' hd' hid
    have hrow := (hx d hd).1
    rw [hid, (hx d' hd').1] at hrow
    cases d
    cases hid
    cases hrow
    rfl
  refine (answers_currentAnalysisJobs hids ?_).bind fun jobs hjobs =>
    Prog.Evaluates.pure.answers fun shown hshown => ?_
  · intro d hd d' hd' jobId hcurrent hcurrent'
    obtain ⟨job, hjob, howner, -⟩ := exists_current hS (hx d hd).1 hcurrent
    obtain ⟨job', hjob', howner', -⟩ := exists_current hS (hx d' hd').1 hcurrent'
    obtain rfl := Option.some.inj (hjob.symm.trans hjob')
    exact hids d hd d' hd' (howner.symm.trans howner')
  · obtain ⟨d, hd, rfl⟩ := List.mem_map.mp hshown
    obtain ⟨hrow, hproject, hfilter⟩ := hx d hd
    exact ⟨d.row, hrow, hproject, hfilter, congrArg (documentResponse d) (hjobs d hd)⟩

end lists

section runs

variable {s₀ s s' : AppDb} {t u : Process} {projectId documentId : Uuid} {shown : DocumentResponse}
  (hquiet : s₀.Quiet) (hstep : InStep s₀.committed) (htasks : TasksBegun s₀)
  (hrun : SerialRun s₀ s)
include hquiet hstep htasks hrun

/-- **The public status says what a start comes to**: a document is shown as in progress exactly where
it cannot be analysed again, and a start then fails; otherwise it is started, a ready one only with
`force`. What is shown next is the new job, or the failure of the queue. `hunused` is what `uuid4`
promises. -/
theorem public_status_predicts_start
    (hshown : (closing (Api.getDocument projectId documentId)).runAlone t s = some (.ok shown, s'))
    (force held : Bool) (run : EnqueueRun)
    (hunused : s'.committed (.job (u, s'.drawn u)) = none) :
    (shown.status = .inProgress ↔
      ∃ analysis, shown.analysis = some analysis ∧ analysis.canRetry = false) ∧
    ∃ result s₁, (closing (startAnalysisJob projectId documentId none force held run)).runAlone u s' =
        some (result, s₁) ∧
      Predicted force shown.status result ∧
      ∀ job, result = .ok job → ∀ v, ∃ next s₂,
        (closing (Api.getDocument projectId documentId)).runAlone v s₁ = some (.ok next, s₂) ∧
          (next.status, next.analysis) = shownAfterStart job.id run := by
  obtain ⟨hquiet', hs⟩ := coupled_of_run hquiet (coupled_of_inStep hstep) htasks hrun
  -- the request is answered, so there is a document of the project
  obtain ⟨row, hrow, hproject⟩ : ∃ row : Document, s.committed (.document documentId) = some row ∧
      row.projectId = projectId := by
    by_contra hnone
    obtain ⟨_, hget, -⟩ := closing_runAlone hquiet' (evaluates_getDocument_error (t := t)
      fun row hrow hproject => hnone ⟨row, hrow, hproject⟩)
    rw [hshown] at hget
    cases hget
  obtain ⟨s₁, hget, hquiet₁, hcommitted⟩ := closing_runAlone (t := t) hquiet'
    (evaluates_getDocument hrow hproject)
  rw [hshown] at hget
  obtain ⟨hok, rfl⟩ := Prod.mk.inj (Option.some.inj hget)
  obtain rfl := Except.ok.inj hok
  dsimp only at hcommitted
  constructor
  · rcases shown_cases hs.coupled hrow with ⟨hstatus, -, -, jobId, state, -, hanalysis⟩ |
      ⟨hstatus, hne, -, hretry⟩
    · exact iff_of_true hstatus ⟨_, hanalysis, rfl⟩
    · refine iff_of_false (hstatus ▸ hne) ?_
      rintro ⟨analysis, hanalysis, hfalse⟩
      rw [hretry analysis hanalysis] at hfalse
      cases hfalse
  rw [← hcommitted] at hrow ⊢
  rcases accepts_or_refuses_of_shown (hcommitted ▸ hs.coupled) hrow hproject force with
    ⟨haccepts, hpredicted⟩ | ⟨e, hrefuses, hpredicted⟩
  · obtain ⟨s₁, hstart, hquiet₂, hcommitted₂⟩ := closing_runAlone (t := u) hquiet₁
      (haccepts.evaluates_startAnalysisJob hunused held run)
    refine ⟨_, s₁, hstart, hpredicted _, ?_⟩
    rintro job ⟨⟩ v
    obtain ⟨hseen, hproject', hnext⟩ := shown_started (t := u)
      (a := ⟨s'.committed, s'.committed, s'.drawn u, s'.clock⟩) documentId row run
    obtain ⟨s₂, hget, -⟩ := closing_runAlone (t := v) hquiet₂
      (evaluates_getDocument (a := ⟨s₁.committed, s₁.committed, s₁.drawn v, s₁.clock⟩)
        (by rw [hcommitted₂]; exact hseen) (hproject'.trans hproject))
    refine ⟨_, s₂, hget, ?_⟩
    rw [hcommitted₂]
    exact hnext
  · have hclean : View.Clean ⟨s'.committed, s'.committed, s'.drawn u, s'.clock⟩ := rfl
    obtain ⟨s₁, hstart, -⟩ := closing_runAlone (t := u) hquiet₁
      (hrefuses.evaluates_startAnalysisJob hclean held run)
    refine ⟨_, s₁, hstart, hpredicted, ?_⟩
    rintro job ⟨⟩

/-- **Lists show documents as they show themselves**, one by one. A list of documents with a status
shows that status, except that the drafts include those in progress whose job waits for the queue. -/
theorem listed_statuses {page : List (Loaded Document) → List (Loaded Document)}
    (hpage : ∀ found, page found ⊆ found) {status : Option DocumentStatus}
    {listed : List DocumentResponse} {total : ℕ}
    (hlisted : (closing (Api.listDocuments page projectId status)).runAlone t s =
      some (.ok (listed, total), s')) :
    ∀ shown ∈ listed,
      (∃ s₁, (closing (Api.getDocument projectId shown.id)).runAlone u s' = some (.ok shown, s₁)) ∧
        ∀ filter, status = some filter → shown.status = filter ∨
          filter = .draft ∧ shown.status = .inProgress ∧
            ∃ analysis, shown.analysis = some analysis ∧ analysis.state = .pending := by
  obtain ⟨hquiet', hs⟩ := coupled_of_run hquiet (coupled_of_inStep hstep) htasks hrun
  obtain ⟨x, s₁, hx, hfound, hquiet₁, hcommitted⟩ := closing_answers hquiet'
    (answers_listDocuments (t := t) hs.coupled hpage)
  rw [hlisted] at hfound
  obtain ⟨hok, rfl⟩ := Prod.mk.inj (Option.some.inj hfound)
  obtain rfl := Except.ok.inj hok
  intro shown hshown
  obtain ⟨row, hrow, hproject, hstatus, heq⟩ := hx shown hshown
  dsimp only at hrow heq hcommitted
  constructor
  · obtain ⟨s₁, hget, -⟩ := closing_runAlone (t := u) hquiet₁
      (evaluates_getDocument (by rw [hcommitted]; exact hrow) hproject)
    rw [hcommitted] at hget
    exact ⟨s₁, hget.trans (congrArg (fun r => some (Except.ok r, s₁)) heq.symm)⟩
  · intro filter hfilter
    have hcases := shown_cases hs.coupled hrow
    rw [← heq, hstatus filter hfilter] at hcases
    rcases hcases with ⟨hshown, -, hdraft | hbegun, jobId, state, hstate, hanalysis⟩ | ⟨hshown, -⟩
    · exact .inr ⟨hdraft, hshown, _, hanalysis, hstate hdraft⟩
    · exact .inl (hshown.trans hbegun.symm)
    · exact .inl hshown

end runs

/-! ## A document that is uploaded and started -/

/-- A text file of one byte. -/
def smallFile : Upload where
  filename := "a.txt"
  format := some .txt
  extension := ".txt"
  size := 1
  stored := true

/-- The empty database is in step. -/
theorem inStep_empty : InStep (AppDb.ofRows [] []).committed :=
  inStep_of_coupled (Statuses.coupled_of_none (fun _ => rfl) fun _ => rfl)

/-- A document that was uploaded is shown as a draft, and can be analysed. -/
theorem public_status_predicts_start_uploaded :
    ∃ s s' shown, SerialRun (AppDb.ofRows [] []) s ∧
      (closing (Api.getDocument (9, 2) (0, 0))).runAlone 1 s = some (.ok shown, s') ∧
      shown.status = .draft ∧
      ∃ result s₁, (closing (startAnalysisJob (9, 2) (0, 0) none false true (.accepted "t"))).runAlone
        2 s' = some (result, s₁) ∧ Predicted false shown.status result := by
  have hrun : ((Operation.upload 10 (9, 2) smallFile).program.runAlone 0 (AppDb.ofRows [] [])).any
      (fun a => ((closing (Api.getDocument (9, 2) (0, 0))).runAlone 1 a.2).any fun b =>
        b.1.toOption.any (fun shown => shown.status = .draft) &&
          decide (b.2.committed (.job (2, b.2.drawn 2)) = none)) = true := by
    decide +kernel
  obtain ⟨⟨_, s⟩, hupload, hrun⟩ := (Option.any_eq_true _ _).mp hrun
  obtain ⟨⟨r, s'⟩, hget, hrun⟩ := (Option.any_eq_true _ _).mp hrun
  simp only [Bool.and_eq_true, decide_eq_true_eq] at hrun
  obtain ⟨hdraft, hunused⟩ := hrun
  obtain ⟨shown, hshown, hdraft⟩ := (Option.any_eq_true _ _).mp hdraft
  cases r with
  | error e => cases hshown
  | ok x =>
      obtain rfl := Option.some.inj hshown
      have h : SerialRun (AppDb.ofRows [] []) s := SerialRun.operation .refl hupload trivial
      obtain ⟨-, result, s₁, hstart, hpredicted, -⟩ := public_status_predicts_start (fun _ => rfl)
        inStep_empty (fun _ _ h => nomatch h) h hget false true (.accepted "t") hunused
      exact ⟨s, s', x, h, hget, of_decide_eq_true hdraft, result, s₁, hstart, hpredicted⟩

/-- A job waits for the queue: its document is listed under the drafts, and shown as in progress. -/
theorem listed_statuses_waiting :
    ∃ s s' shown total, SerialRun (AppDb.ofRows [] []) s ∧
      (closing (Api.listDocuments id (9, 2) (some .draft))).runAlone 2 s =
        some (.ok ([shown], total), s') ∧
      shown.status = .inProgress ∧
      ∃ s₁, (closing (Api.getDocument (9, 2) shown.id)).runAlone 3 s' = some (.ok shown, s₁) := by
  have hrun : ((Operation.upload 10 (9, 2) smallFile).program.runAlone 0 (AppDb.ofRows [] [])).any
      (fun a => ((Operation.create (9, 2) (0, 0) none false).program.runAlone 1 a.2).any fun b =>
        ((closing (Api.listDocuments id (9, 2) (some .draft))).runAlone 2 b.2).any fun c =>
          c.1.toOption.any fun listed =>
            listed.1.length = 1 && listed.1.all (·.status = .inProgress)) = true := by
    decide +kernel
  obtain ⟨⟨_, s₁⟩, hupload, hrun⟩ := (Option.any_eq_true _ _).mp hrun
  obtain ⟨⟨_, s⟩, hcreate, hrun⟩ := (Option.any_eq_true _ _).mp hrun
  obtain ⟨⟨r, s'⟩, hlist, hrun⟩ := (Option.any_eq_true _ _).mp hrun
  obtain ⟨listed, hlisted, hrun⟩ := (Option.any_eq_true _ _).mp hrun
  simp only [Bool.and_eq_true, decide_eq_true_eq, List.all_eq_true] at hrun
  obtain ⟨hone, hstatus⟩ := hrun
  cases r with
  | error e => cases hlisted
  | ok x =>
      obtain rfl := Option.some.inj hlisted
      obtain ⟨documents, total⟩ := x
      obtain ⟨shown, rfl⟩ := List.length_eq_one_iff.mp hone
      have h : SerialRun (AppDb.ofRows [] []) s :=
        (SerialRun.operation .refl hupload trivial).operation hcreate trivial
      obtain ⟨hsame, -⟩ := listed_statuses (fun _ => rfl) inStep_empty (fun _ _ h => nomatch h) h
        (u := 3) (fun _ => List.Subset.refl _) hlist shown (List.mem_singleton_self _)
      exact ⟨s, s', shown, total, h, hlist, hstatus shown (List.mem_singleton_self _), hsame⟩

end SyncBack
