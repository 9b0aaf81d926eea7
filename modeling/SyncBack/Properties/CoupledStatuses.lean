import SyncBack.Application.CoupledSessions

/-!
# Documents and jobs in step

Every operation of the API and of the worker, run with nobody in between, keeps the status of a
document and the status of its current job in step. For each operation there is a lemma that says
where its session leads; the lemmas rest on the steps of `Statuses`. A serial run then follows by
induction.
-/

namespace SyncBack

open Txn Session AnalysisJobService

variable {s₀ : AppDb} {t : Process} {base view : Statuses Uuid Uuid}

/-- Anywhere. -/
abbrev Anywhere {α : Type} : α → Statuses Uuid Uuid → Statuses Uuid Uuid → Prop :=
  fun _ _ _ => True

/-! ## Uploading -/

/-- A new document is a draft without a job. -/
theorem leads_create {documentId projectId : Uuid} {name : String} {format : DocumentFormat}
    {storageKey : String} {sizeBytes : ℕ} {rest : Loaded Document → Session (Loaded Document)}
    (h : ∀ document, view.document documentId = none → Leads s₀ t (rest document) base
      (view.setDocument documentId ⟨.draft, none⟩) Anywhere) :
    Leads s₀ t (DocumentRepository.create documentId projectId name format storageKey sizeBytes >>=
      rest) base view Anywhere := by
  refine fun s hs => ?_
  rintro inserted s' hex
  rcases exec_insert_cases hex with ⟨rfl, rfl, -⟩ | ⟨-, hnew, -, rfl, rfl⟩
  · exact ⟨hs.since, rfl⟩
  · refine h _ ?_ _ (hs.writeDocument documentId
      ({ projectId, name, format, storageKey, sizeBytes } : Document))
    rw [← hs.read]
    exact congrArg (Option.map Document.state) hnew

/-- An upload leaves what is committed coupled. -/
theorem leads_uploadDocument (maxSizeBytes : ℕ) (projectId : Uuid) (upload : Upload) :
    Leads s₀ t (DocumentService.uploadDocument maxSizeBytes projectId upload) base base
      Anywhere := by
  unfold DocumentService.uploadDocument
  split
  · exact .throw rfl
  · split
    · exact .throw rfl
    · refine Leads.keeps_any (.stmt .draw) fun documentId => ?_
      split
      · refine Leads.withUow (leads_create fun document hnew => ?_)
        exact Leads.commit (.single (.upload hnew)) (.pure trivial)
      · exact .throw rfl

/-! ## Creating a job -/

/-- Where `create_job` leads: the new job is the current one of the document. -/
def NewJob (job : Loaded AnalysisJob) (document : Loaded Document)
    (base view : Statuses Uuid Uuid) : Prop :=
  view = base ∧ job.row.status = .pending ∧ Linked view job.id document.id job.row document.row

/-- Where `_create_job_once` leads, if it has created a job. -/
def Creates (outcome : CreateOutcome) (base view : Statuses Uuid Uuid) : Prop :=
  ∀ job document, outcome = .created job document → NewJob job document base view

/-- Storing a job sets document and job together, where no job is active. -/
theorem leads_storeJob {documentId : Uuid} {row : Document} {key : Option String}
    (hrow : base.document documentId = some row.state)
    (hstatus : DocumentLifecycle.canStartAnalysis row.status = true)
    (hidle : ∀ j y, base.job j = some y → y.document = documentId →
      AnalysisJobLifecycle.isActive y.status = false) :
    Leads s₀ t (storeJob ⟨documentId, row⟩ key) base base Creates := by
  have hlegal : row.status = .draft ∨ .draft ∈ documentTransitions row.status := by
    revert hstatus
    cases row.status <;> decide
  -- the document as a draft, whatever it was before
  have hstore : ∀ (draft : Document) (view : Statuses Uuid Uuid),
      draft.state = ⟨.draft, row.currentAnalysisJobId⟩ →
      view = base.setDocument documentId draft.state →
      Leads s₀ t (do
        let job ← AnalysisJobRepository.createForDocument ⟨documentId, draft⟩ .pending key
        let document ← DocumentRepository.setCurrentJob ⟨documentId, draft⟩ (some job.id)
        commit
        pure (CreateOutcome.created job document)) base view Creates := by
    rintro draft view hdraft rfl
    refine Leads.createForDocument fun id job hnew hjob => ?_
    refine Leads.setCurrentJob ?_ fun document hdocument => ?_
    · rw [Statuses.setJob_document, Statuses.setDocument_document_self]
    rw [show draft.status = .draft from congrArg DocumentState.status hdraft] at hdocument
    have hmove : ((base.setDocument documentId draft.state).setJob id job.state).setDocument
        documentId document.state = base.move documentId id .pending .draft := by
      rw [Statuses.setDocument_setJob_setDocument, hdocument, hjob]
      rfl
    rw [hmove]
    refine Leads.commit (.single (.create hrow hlegal hnew hidle)) (.pure ?_)
    rintro _ _ ⟨⟩
    exact ⟨rfl, congrArg JobState.status hjob, .of_move hjob hdocument rfl⟩
  dsimp only [storeJob]
  split
  · rename_i hdraft
    rw [Prog.pure_bind']
    refine hstore row base ?_ (Statuses.setDocument_self hrow).symm
    rw [Document.state, hdraft]
  · rename_i hne
    exact Leads.setDocumentStatus hrow (hlegal.resolve_left hne) fun draft hdraft =>
      hstore draft _ hdraft rfl

/-- `_create_job_once` leads to a new current job, or back. -/
theorem leads_createJobOnce (projectId documentId : Uuid) (key : Option String) (force : Bool) :
    Leads s₀ t (createJobOnce projectId documentId key force) base base Creates := by
  refine Leads.withUow (Leads.getDocumentOrRaise fun row hrow => ?_)
  refine Leads.keeps_any (keeps_findByKey _ _) fun existing => ?_
  split
  · exact .pure fun _ _ h => nomatch h
  · split
    · rename_i hstatus
      refine Leads.getActiveByDocumentId (fun active => ?_) fun hidle => ?_
      · dsimp only
        split
        · exact .pure fun _ _ h => nomatch h
        · exact .throw rfl
      · dsimp only
        split
        · exact .throw rfl
        · exact leads_storeJob hrow hstatus hidle
    · exact .throw rfl

/-- `create_job` leads to a new current job. -/
theorem leads_createJob (projectId documentId : Uuid) (key : Option String) (force : Bool) :
    Leads s₀ t (createJob projectId documentId key force) base base fun created base' view' =>
      NewJob created.1 created.2 base' view' := by
  refine Leads.bind (Φ := Creates) (Leads.tryCatch (leads_createJobOnce _ _ _ _) ?_) ?_
  · intro e base' view' he
    split
    · refine Leads.bind (Φ := Anywhere) (Leads.withUow ?_) fun existing _ _ _ => ?_
      · exact Leads.of_keeps (keeps_findByKey _ _)
      · split
        · exact .throw rfl
        · exact .throw rfl
    · exact .throw he
  · intro outcome base' view' houtcome
    split
    · exact .pure (houtcome _ _ rfl)
    · exact .throw rfl

/-! ## Dispatching a job -/

section dispatch

variable {β : Type} {Ψ : β → Statuses Uuid Uuid → Statuses Uuid Uuid → Prop}
  {jobId documentId : Uuid} {job : AnalysisJob} {document : Document}

/-- The document of a job, as the session holds it or as it is read. -/
theorem leads_documentOf {held : Option (Loaded Document)} {rest : Loaded Document → Session β}
    (hheld : ∀ object, held = some object →
      object.id = documentId ∧ view.document documentId = some object.row.state)
    (h : ∀ row : Document, view.document documentId = some row.state →
      Leads s₀ t (rest ⟨documentId, row⟩) base view Ψ) :
    Leads s₀ t (documentOf documentId held >>= rest) base view Ψ := by
  unfold documentOf
  rw [Prog.bind_assoc']
  cases held with
  | none => exact Leads.getDocument (fun row hrow => h row hrow) (.throw rfl)
  | some object =>
      obtain ⟨rfl, hview⟩ := hheld object rfl
      exact h object.row hview

/-- An active job is moved in a transaction of its own. -/
theorem leads_moveJob (hjob : base.job jobId = some job.state)
    (hactive : AnalysisJobLifecycle.isActive job.status = true) {held : Option (Loaded Document)}
    (hheld : ∀ object, held = some object →
      object.id = job.documentId ∧ base.document job.documentId = some object.row.state)
    {target : AnalysisJobStatus} (hlegal : target ∈ jobTransitions job.status)
    (hne : target ≠ .processing) {errorCode errorMessage : Option String} :
    Leads s₀ t (do
      let document ← documentOf job.documentId held
      let (job, _) ← setJobStatus ⟨jobId, job⟩ document target errorCode errorMessage
      commit
      pure job) base base Anywhere := by
  refine Leads.of_coupled fun hS => leads_documentOf hheld fun document hdocument => ?_
  have hlinked := Linked.of_active hS hjob hdocument hactive
  refine hlinked.setJobStatus hlegal hne fun job' document' _ _ => ?_
  exact Leads.commit (.single (hlinked.step hlegal hne false)) (.pure trivial)

/-- The end of a dispatch, where the job is `dispatched` and its task is in the queue, or not. -/
theorem leads_afterDispatch (h : Linked base jobId documentId job document)
    (hstatus : job.status = .dispatched) (sourceIds : List Uuid) (run : EnqueueRun) :
    Leads s₀ t
      (match run with
      | .accepted taskId => do
          send (.analysis jobId sourceIds)
          withUow do
            let job ← AnalysisJobRepository.setCeleryTaskId ⟨jobId, job⟩ taskId
            commit
            pure job
      | .failed message delivered => do
          (if delivered = true then send (.analysis jobId sourceIds) else pure ())
          markQueueUnavailable ⟨jobId, job⟩ (some ⟨documentId, document⟩) message) base base
      Anywhere := by
  have hbegun : base.Begun jobId := by
    refine ⟨job.state, h.job_view, ?_⟩
    change job.status ≠ .pending
    rw [hstatus]
    decide
  cases run with
  | accepted taskId =>
      refine Leads.send hbegun (Leads.withUow ?_)
      exact Leads.keeps_any (keeps_flushJob rfl) fun _ => Leads.commit .refl (.pure trivial)
  | failed message delivered =>
      have hmark : Leads s₀ t (markQueueUnavailable ⟨jobId, job⟩ (some ⟨documentId, document⟩)
          message) base base Anywhere := by
        refine Leads.withUow (leads_moveJob h.job_view (by simp [hstatus, AnalysisJobLifecycle.isActive])
          ?_ (by simp [hstatus, jobTransitions]) (by decide))
        rintro object ⟨⟩
        exact ⟨h.owner.symm, h.owner.symm ▸ h.document_view⟩
      dsimp only
      split
      · exact Leads.send hbegun hmark
      · exact hmark

/-- `dispatch_job` leads somewhere coupled, whether or not the queue is there. -/
theorem leads_dispatchJob (hjob : base.job jobId = some job.state)
    {held : Option (Loaded Document)}
    (hheld : ∀ object, held = some object →
      object.id = job.documentId ∧ base.document job.documentId = some object.row.state)
    (run : EnqueueRun) :
    Leads s₀ t (dispatchJob ⟨jobId, job⟩ held run) base base Anywhere := by
  dsimp only [dispatchJob]
  split
  swap
  · exact .throw rfl
  rename_i hdispatch
  have hpending : job.status = .pending := by simpa [AnalysisJobLifecycle.canDispatch] using hdispatch
  refine Leads.bind (Φ := fun x base' view' => view' = base' ∧ x.1.row.status = .dispatched ∧
    Linked base' x.1.id x.2.1.id x.1.row x.2.1.row) (Leads.withUow ?_) ?_
  · refine Leads.of_coupled fun hS => leads_documentOf hheld fun document hdocument => ?_
    refine Leads.keeps_any (keeps_listForAnalysis _ _) fun sourceIds => ?_
    have hlinked := Linked.of_active hS hjob hdocument
      (by simp [hpending, AnalysisJobLifecycle.isActive])
    have hlegal : .dispatched ∈ jobTransitions job.status := by simp [hpending, jobTransitions]
    refine hlinked.setJobStatus hlegal (by decide) fun job' document' hstatus hlinked' => ?_
    exact Leads.commit (.single (hlinked.step hlegal (by decide) false))
      (.pure ⟨rfl, hstatus, hlinked'⟩)
  · rintro ⟨job', document', sourceIds⟩ base' view' ⟨rfl, hstatus, hlinked⟩
    exact leads_afterDispatch hlinked hstatus sourceIds run

/-- So does the dispatch of a committed job. -/
theorem leads_dispatchCommitted (jobId : Uuid) (run : EnqueueRun) :
    Leads s₀ t (dispatchCommitted jobId run) base base Anywhere := by
  refine Leads.getJob (fun row hrow => leads_dispatchJob hrow ?_ run) (.throw rfl)
  rintro object ⟨⟩

/-- The look-up of the key, if the request has one. -/
theorem settles_findExisting (projectId documentId : Uuid) (key : Option String) :
    Keeps Settles (match key with
      | some key => if key = "" then pure none else findJobByIdempotencyKey projectId documentId key
      | none => pure none) := by
  split
  · split
    · exact .pure _
    · exact settles_findJobByIdempotencyKey _ _ _
  · exact .pure _

/-- So does a start. -/
theorem leads_startAnalysisJob (projectId documentId : Uuid) (key : Option String)
    (force held : Bool) (run : EnqueueRun) :
    Leads s₀ t (startAnalysisJob projectId documentId key force held run) base base Anywhere := by
  refine Leads.settles_any (settles_findExisting projectId documentId key) fun existing => ?_
  split
  · exact .pure trivial
  · refine (leads_createJob projectId documentId key force).bind ?_
    rintro ⟨job, document⟩ base' view' ⟨rfl, hpending, hlinked⟩
    refine leads_dispatchJob hlinked.job_view ?_ run
    intro object hobject
    split at hobject
    · cases hobject
      exact ⟨hlinked.owner.symm, hlinked.owner.symm ▸ hlinked.document_view⟩
    · cases hobject

/-! ## Cancelling a job -/

/-- A job is read together with its document. -/
theorem leads_getJob {projectId : Uuid} {rest : Loaded Document × Loaded AnalysisJob → Session β}
    (h : ∀ (document : Document) (job : AnalysisJob),
      view.document documentId = some document.state → view.job jobId = some job.state →
        job.documentId = documentId →
          Leads s₀ t (rest (⟨documentId, document⟩, ⟨jobId, job⟩)) base view Ψ) :
    Leads s₀ t (AnalysisJobService.getJob projectId documentId jobId >>= rest) base view Ψ := by
  unfold AnalysisJobService.getJob
  rw [Prog.bind_assoc']
  refine Leads.getDocumentOrRaise fun document hdocument => ?_
  rw [Prog.bind_assoc']
  refine Leads.getJob (fun job hjob => ?_) (.throw rfl)
  dsimp only
  split
  · rename_i howner
    exact h document job hdocument hjob howner
  · exact .throw rfl

/-- A cancellation leads somewhere coupled. -/
theorem leads_cancelJob (projectId documentId jobId : Uuid) (held : Bool) :
    Leads s₀ t (cancelJob projectId documentId jobId held) base base Anywhere := by
  refine Leads.withUow (leads_getJob fun document job hdocument hjob howner => ?_)
  dsimp only
  split
  · exact .pure trivial
  · split
    · rename_i hcancel
      subst howner
      refine leads_moveJob hjob hcancel ?_ ?_ (by decide)
      · intro object hobject
        split at hobject
        · cases hobject
          exact ⟨rfl, hdocument⟩
        · cases hobject
      · revert hcancel
        cases job.status <;> decide
    · exact .throw rfl

end dispatch

/-! ## Reviews -/

section review

variable {β : Type} {Ψ : β → Statuses Uuid Uuid → Statuses Uuid Uuid → Prop}
  {documentId : Uuid} {row : Document}

/-- A document that was ready is under review again. -/
theorem leads_reopenReview (hrow : base.document documentId = some row.state)
    {rest : Loaded Document → Session β}
    (h : ∀ document view', Relation.ReflGen Statuses.Step base view' →
      Leads s₀ t (rest document) base view' Ψ) :
    Leads s₀ t (SuggestionService.reopenReview ⟨documentId, row⟩ >>= rest) base base Ψ := by
  dsimp only [SuggestionService.reopenReview]
  split
  swap
  · exact h _ _ .refl
  rename_i hready
  have htransition : documentTransition row.status .awaitingApproval = pure .awaitingApproval := by
    rw [hready]
    rfl
  rw [htransition, Prog.pure_bind']
  refine Leads.of_coupled fun hS s hs => ?_
  rintro b s' hex
  rcases exec_update_cases hex with ⟨rfl, rfl, -⟩ | ⟨rfl, rfl, -⟩ |
    ⟨current, -, hcurrent, -, -, rfl, rfl⟩
  · exact ⟨hs.since, rfl⟩
  · exact ⟨hs.since, rfl⟩
  · have hstate : row.state = current.state :=
      Option.some.inj (hrow.symm.trans (hs.document hcurrent))
    have hwritten := hs.writeDocument documentId (Document.withStatus .awaitingApproval
      { currentJob := row.currentAnalysisJobId, documentStatus := some .ready } current)
    refine h _ _ (.single ?_) _ hwritten
    have hlegal : .awaitingApproval ∈ documentTransitions row.state.status := by
      change .awaitingApproval ∈ documentTransitions row.status
      rw [hready]
      decide
    have hstep := hS.step_document hrow (.inr hready) (.inl rfl) (.inr hlegal)
    rw [hstate] at hstep
    exact hstep

/-- A document under review becomes ready. -/
theorem leads_finishReview (hrow : base.document documentId = some row.state)
    (hreview : DocumentLifecycle.canReview row.status = true) (pendingCount : ℕ)
    {rest : Loaded Document → Session β}
    (h : ∀ document view', Relation.ReflGen Statuses.Step base view' →
      Leads s₀ t (rest document) base view' Ψ) :
    Leads s₀ t (SuggestionService.finishReview ⟨documentId, row⟩ pendingCount >>= rest) base base
      Ψ := by
  have hstatus : row.status = .awaitingApproval := by
    simpa [DocumentLifecycle.canReview] using hreview
  have htransition : documentTransition row.status .ready = pure .ready := by
    rw [hstatus]
    rfl
  dsimp only [SuggestionService.finishReview]
  rw [htransition, Prog.pure_bind']
  refine Leads.of_coupled fun hS => Leads.updateStatus hrow fun new hnew => ?_
  refine h _ _ (.single ?_)
  rw [hnew]
  refine hS.step_document hrow (.inl hstatus) (.inr rfl) (.inr ?_)
  change .ready ∈ documentTransitions row.status
  rw [hstatus]
  decide

/-- The end of a review: the export, if one is asked for, is committed before the status. -/
theorem leads_exportAndFinish (hrow : base.document documentId = some row.state)
    (hreview : DocumentLifecycle.canReview row.status = true) (pendingCount : ℕ)
    (exporting : Option ExportRun) {rest : Loaded Document → Session β}
    (h : ∀ document view', Relation.ReflGen Statuses.Step base view' →
      Leads s₀ t (rest document) base view' Ψ) :
    Leads s₀ t (SuggestionService.exportIfAsked ⟨documentId, row⟩ exporting >>= fun document =>
      SuggestionService.finishReview document pendingCount >>= rest) base base Ψ := by
  refine Leads.settles (settles_exportIfAsked _ _) returns_exportIfAsked fun exported hexported => ?_
  have hreview' : DocumentLifecycle.canReview exported.row.status = true := by
    rw [hexported.2.1]
    exact hreview
  exact leads_finishReview (hexported.document_view hrow) hreview' pendingCount h

/-- After the check the document is in review. -/
theorem leads_assertAwaitingApproval {rest : Unit → Session β}
    (h : DocumentLifecycle.canReview row.status = true → Leads s₀ t (rest ()) base view Ψ) :
    Leads s₀ t (SuggestionService.assertAwaitingApproval ⟨documentId, row⟩ >>= rest) base view
      Ψ := by
  dsimp only [SuggestionService.assertAwaitingApproval]
  split
  · rename_i hreview
    exact h hreview
  · exact .throw rfl

/-- After the check its decisions may be reset. -/
theorem leads_assertDecisionsResettable {rest : Unit → Session β}
    (h : DocumentLifecycle.canResetReview row.status = true → Leads s₀ t (rest ()) base view Ψ) :
    Leads s₀ t (SuggestionService.assertDecisionsResettable ⟨documentId, row⟩ >>= rest) base view
      Ψ := by
  dsimp only [SuggestionService.assertDecisionsResettable]
  split
  · rename_i hreset
    exact h hreset
  · exact .throw rfl

/-- After the check it has a current job. -/
theorem leads_assertHasActiveJob {document : Loaded Document} {rest : Uuid → Session β}
    (h : ∀ jobId, Leads s₀ t (rest jobId) base view Ψ) :
    Leads s₀ t (SuggestionService.assertHasActiveJob document >>= rest) base view Ψ := by
  unfold SuggestionService.assertHasActiveJob
  split
  · exact h _
  · exact .throw rfl

/-- `reset_suggestion` leads somewhere coupled. -/
theorem leads_resetSuggestion (projectId documentId suggestionId : Uuid) :
    Leads s₀ t (SuggestionService.resetSuggestion projectId documentId suggestionId) base base
      Anywhere := by
  refine Leads.withUow (Leads.getDocumentOrRaise fun row hrow => ?_)
  refine leads_assertDecisionsResettable fun _ => ?_
  refine Leads.keeps_any (keeps_getSuggestionForDocument _ _) fun suggestion => ?_
  split
  · exact .throw rfl
  · refine leads_reopenReview hrow fun _ view' hstep => ?_
    refine Leads.keeps_any (keeps_resetStatus _ _) fun updated => ?_
    split
    · exact Leads.commit hstep (.pure trivial)
    · exact .throw rfl

/-- So does `patch_suggestions`. -/
theorem leads_patchSuggestions (projectId documentId userId : Uuid) (target : SuggestionStatus)
    (ids : Option (List Uuid)) (filter : Option PatchFilter) :
    Leads s₀ t (SuggestionService.patchSuggestions projectId documentId userId target ids filter)
      base base Anywhere := by
  unfold SuggestionService.patchSuggestions
  split
  · exact .throw rfl
  refine Leads.withUow (Leads.getDocumentOrRaise fun row hrow => ?_)
  split
  · refine leads_assertDecisionsResettable fun _ => leads_assertHasActiveJob fun jobId => ?_
    refine Leads.keeps_any (keeps_resetMany _ _ _ _) fun updatedIds => ?_
    split
    · exact Leads.commit .refl (.pure trivial)
    · exact leads_reopenReview hrow fun _ _ hstep => Leads.commit hstep (.pure trivial)
  · refine leads_assertAwaitingApproval fun _ => leads_assertHasActiveJob fun jobId => ?_
    refine Leads.keeps_any (keeps_decidePending _ _ _ _ _ _) fun updatedIds => ?_
    exact Leads.commit .refl (.pure trivial)

/-- So does `finalize_review`. -/
theorem leads_finalizeReview (projectId documentId : Uuid) (exporting : Option ExportRun) :
    Leads s₀ t (SuggestionService.finalizeReview projectId documentId exporting) base base
      Anywhere := by
  refine Leads.withUow (Leads.getDocumentOrRaise fun row hrow => ?_)
  refine leads_assertAwaitingApproval fun hreview => leads_assertHasActiveJob fun jobId => ?_
  refine Leads.keeps_any (keeps_count _ _) fun pendingCount => ?_
  split
  · exact leads_exportAndFinish hrow hreview pendingCount exporting fun _ _ hstep =>
      Leads.commit hstep (.pure trivial)
  · exact .throw rfl

/-- So does `atomic_review_save`. -/
theorem leads_atomicReviewSave (projectId documentId userId : Uuid) (reviewVersion : ℤ)
    (acceptedIds rejectedIds : List Uuid) (finalize : Bool) (exporting : Option ExportRun)
    (editedTexts : Uuid → Option Text) :
    Leads s₀ t (SuggestionService.atomicReviewSave projectId documentId userId reviewVersion
      acceptedIds rejectedIds finalize exporting editedTexts) base base Anywhere := by
  refine Leads.withUow (Leads.getDocumentOrRaise fun row hrow => ?_)
  refine leads_assertAwaitingApproval fun hreview => leads_assertHasActiveJob fun jobId => ?_
  refine Leads.keeps (keeps_compareAndIncrement _ _) returns_compareAndIncrement fun locked
    hlocked => ?_
  split
  · exact .throw rfl
  rename_i document
  have hsame := hlocked document rfl
  have hreview' : DocumentLifecycle.canReview document.row.status = true := by
    rw [hsame.2.1]
    exact hreview
  refine Leads.keeps_any (keeps_bulkUpdateStatus _) fun updated => ?_
  split
  swap
  · exact .throw rfl
  refine Leads.keeps_any (keeps_count _ _) fun pendingCount => ?_
  split
  · unfold SuggestionService.finalizeSave
    split
    · rw [Prog.bind_assoc']
      exact leads_exportAndFinish (hsame.document_view hrow) hreview' pendingCount exporting
        fun _ _ hstep => Leads.commit hstep (.pure trivial)
    · exact .throw rfl
  · exact Leads.commit .refl (.pure trivial)

/-- So does `reset_analysis`. -/
theorem leads_resetAnalysis (projectId documentId : Uuid) :
    Leads s₀ t (resetAnalysis projectId documentId) base base Anywhere := by
  refine Leads.withUow (Leads.getDocumentOrRaise fun row hrow => ?_)
  split
  swap
  · exact .throw rfl
  rename_i hreset
  have hreviewed : row.status = .awaitingApproval ∨ row.status = .ready := by
    simpa [DocumentLifecycle.canResetReview] using hreset
  have hlegal : .awaitingApproval ∈ documentTransitions row.status := by
    rcases hreviewed with h | h <;> rw [h] <;> decide
  split
  · exact .throw rfl
  · refine Leads.of_coupled fun hS => Leads.keeps_any (keeps_resetToPending _ _ _) fun resetIds => ?_
    refine Leads.setDocumentStatus hrow hlegal fun new hnew => ?_
    rw [hnew]
    exact Leads.commit (.single (hS.step_document hrow hreviewed (.inl rfl) (.inr hlegal)))
      (.pure trivial)

end review

/-! ## The worker -/

section worker

variable {jobId : Uuid}

/-- A task marks its job before anything else. -/
theorem leads_markProcessing {β : Type} {Ψ : β → Statuses Uuid Uuid → Statuses Uuid Uuid → Prop}
    (hbegun : base.Begun jobId) {rest otherwise : Session β}
    (hrest : ∀ base', Leads s₀ t rest base' base' Ψ) (hotherwise : Leads s₀ t otherwise base base Ψ) :
    Leads s₀ t (AnalysisJobRepository.markProcessingIfActive jobId >>= fun active =>
      if active = true then commit >>= fun _ => rest else otherwise) base base Ψ := by
  refine Leads.of_coupled fun hS => Leads.markProcessingIfActive hbegun hotherwise ?_
  intro y hy hactive hne
  exact Leads.commit (.single (hS.step_processing hy hactive hne)) (hrest _)

/-- A source task marks its job at most. -/
theorem leads_claimSource (hbegun : base.Begun jobId) (sourceId : Uuid) :
    Leads s₀ t (AnalysisTasks.claimSource jobId sourceId) base base fun _ base' view' =>
      view' = base' := by
  refine Leads.closing (Φ := fun _ base' view' => view' = base')
    (Leads.getJob (fun row _ => ?_) (.pure rfl))
  refine leads_markProcessing hbegun (fun base' => ?_) (.pure rfl)
  refine Leads.settles_any ((Keeps.reads .get).bind fun _ => .pure _) fun source => ?_
  split
  · exact .pure rfl
  · refine Leads.getDocument (fun document _ => ?_) (.pure rfl)
    exact Leads.of_settles (settles_claimRun _)

/-- The rest of the source task changes no status. -/
theorem leads_processSource (hbegun : base.Begun jobId) (sourceId : Uuid)
    (generation : GenerationRun) :
    Leads s₀ t (AnalysisTasks.processSource jobId sourceId generation) base base
      fun _ base' view' => view' = base' := by
  refine (leads_claimSource hbegun sourceId).bind ?_
  rintro start base' _ rfl
  refine Leads.of_settles ?_
  split
  · exact .pure _
  · split
    · refine settles_releaseSource.bind fun _ => ?_
      split
      · exact .pure _
      · exact .pure _
    · exact settles_storeResult _

/-- The end of a job: it goes to the status of the summary, and its document follows. -/
theorem leads_finishJob {documentId : Uuid} {job : AnalysisJob} {document : Document}
    (hlinked : Linked base jobId documentId job document)
    (hactive : AnalysisJobLifecycle.isActive job.status = true) (hne : job.status ≠ .pending)
    (results : List SourceResult) :
    Leads s₀ t (AnalysisTasks.finishJob results ⟨jobId, job⟩ ⟨documentId, document⟩) base base
      Anywhere := by
  have hterminal := isTerminal_summary results
  dsimp only [AnalysisTasks.finishJob]
  generalize AnalysisTasks.summary results = outcome at hterminal ⊢
  obtain ⟨jobStatus, errorCode, errorMessage⟩ := outcome
  dsimp only at hterminal ⊢
  have hlegal := AnalysisJobLifecycle.mem_jobTransitions_of_begun hactive hne hterminal
  have hprocessing : jobStatus ≠ .processing := by
    rintro rfl
    cases hterminal
  have hjobTransition : jobTransition job.status jobStatus = pure jobStatus := by
    simp only [jobTransition, AnalysisJobLifecycle.transition_eq_some.mpr ⟨rfl, hlegal⟩]
  refine Leads.keeps_any (keeps_count _ _) fun pending => ?_
  have hmem := AnalysisJobLifecycle.documentStatusFor_mem hlinked.goes hlegal hprocessing
    (0 < pending)
  rw [hjobTransition, Prog.pure_bind']
  refine Leads.updateJobStatus hlinked.job_view fun job' hjob' => ?_
  refine Leads.keeps (keeps_flushJob rfl) returns_flushJob fun flushed hid => ?_
  rw [if_pos (by rw [hid]; exact hlinked.current)]
  have htransition : documentTransition document.status
      (AnalysisJobLifecycle.documentStatusFor jobStatus (0 < pending)) =
        pure (AnalysisJobLifecycle.documentStatusFor jobStatus (0 < pending)) := by
    simp only [documentTransition, DocumentLifecycle.transition_eq_some.mpr ⟨rfl, hmem⟩]
  rw [htransition, Prog.pure_bind']
  refine Leads.updateStatus hlinked.document_view fun document' hdocument' => ?_
  rw [hlinked.move_eq hjob' hdocument']
  exact Leads.commit (.single (hlinked.step hlegal hprocessing _)) (.pure trivial)

/-- A final task ends its job, and the document's analysis with it. -/
theorem leads_finalize (hbegun : base.Begun jobId) (results : List SourceResult) :
    Leads s₀ t (AnalysisTasks.finalize results jobId) base base fun _ base' view' =>
      view' = base' := by
  refine Leads.closing (Φ := Anywhere) (Leads.getJob (fun job hjob => ?_) (.pure trivial))
  dsimp only
  split
  · exact .pure trivial
  rename_i hterminal
  have hactive : AnalysisJobLifecycle.isActive job.status = true := by
    simpa using hterminal
  have hne : job.status ≠ .pending := by
    obtain ⟨y, hy, hne⟩ := hbegun
    obtain rfl := Option.some.inj (hjob.symm.trans hy)
    exact hne
  refine Leads.of_coupled fun hS => Leads.getDocument (fun document hdocument => ?_) (.pure trivial)
  exact leads_finishJob (Linked.of_active hS hjob hdocument hactive) hactive hne results

end worker

/-! ## Serial runs -/

/-- An operation of a serial run: one of the application, or a task of the worker that ends as soon
as it has marked its job. -/
inductive SerialOperation where
  | operation (op : Operation)
  | markProcessing (sourceIds : List Uuid) (jobId : Uuid)

namespace SerialOperation

/-- The program of a process that performs the operation. -/
def program : SerialOperation → Session Unit
  | operation op => op.program
  | markProcessing sourceIds jobId => do
      delivered (some sourceIds) jobId
      closing do
        let active ← AnalysisJobRepository.markProcessingIfActive jobId
        if active = true then do
          commit
          pure ()
        else pure ()

/-- A task of the worker runs when the message that it was delivered with is in the queue. -/
def Enqueued : SerialOperation → Prop
  | operation (.processSource delivery ..) => delivery.isSome = true
  | operation (.finalize delivery ..) => delivery.isSome = true
  | _ => True

end SerialOperation

/-- **Every operation leads from coupled statuses to coupled statuses.** -/
theorem leads_program {op : SerialOperation} (h : op.Enqueued) :
    Leads s₀ t op.program base base fun _ base' view' => view' = base' := by
  cases op with
  | markProcessing sourceIds jobId =>
      refine Leads.delivered fun hbegun => Leads.closing (Φ := Anywhere) ?_
      exact leads_markProcessing hbegun (fun _ => .pure trivial) (.pure trivial)
  | operation op =>
      cases op with
      | upload maxSizeBytes projectId file =>
          exact (leads_uploadDocument maxSizeBytes projectId file).request
      | create projectId documentId key force =>
          exact (leads_createJob projectId documentId key force).request
      | start projectId documentId key force held run =>
          exact (leads_startAnalysisJob projectId documentId key force held run).request
      | dispatch jobId run => exact (leads_dispatchCommitted jobId run).request
      | cancel projectId documentId jobId held =>
          exact (leads_cancelJob projectId documentId jobId held).request
      | processSource delivery jobId sourceId generation =>
          obtain ⟨sourceIds, rfl⟩ := Option.isSome_iff_exists.mp h
          refine Leads.delivered fun hbegun => ?_
          refine (leads_processSource hbegun sourceId generation).bind fun _ _ _ hend => ?_
          exact .pure hend
      | finalize delivery results jobId =>
          obtain ⟨sourceIds, rfl⟩ := Option.isSome_iff_exists.mp h
          exact Leads.delivered fun hbegun => leads_finalize hbegun results
      | reviewSave projectId documentId userId version accepted rejected finalize exporting edited =>
          exact (leads_atomicReviewSave projectId documentId userId version accepted rejected
            finalize exporting edited).request
      | finalizeReview projectId documentId exporting =>
          exact (leads_finalizeReview projectId documentId exporting).request
      | patch projectId documentId userId target ids filter =>
          exact (leads_patchSuggestions projectId documentId userId target ids filter).request
      | resetSuggestion projectId documentId suggestionId =>
          exact (leads_resetSuggestion projectId documentId suggestionId).request
      | resetAnalysis projectId documentId =>
          exact (leads_resetAnalysis projectId documentId).request

/-- No operation leaves a transaction open. -/
theorem idle_program (op : SerialOperation) {s : AppDb} (h : s.Idle t) :
    op.program.Ensures t s fun _ s' => s'.Idle t := by
  have hidle : ∀ {delivery : Option (List Uuid)} {jobId : Uuid} {body : Session Unit},
      (∀ s : AppDb, s.Idle t → body.Ensures t s fun _ s' => s'.Idle t) →
        (delivered delivery jobId >>= fun _ => body).Ensures t s fun _ s' => s'.Idle t :=
    fun hbody => Prog.Ensures.seq (idle_delivered h) fun _ s hs => hbody s hs
  cases op with
  | markProcessing sourceIds jobId => exact hidle fun _ _ => idle_closing
  | operation op =>
      cases op with
      | finalize delivery results jobId => exact hidle fun _ _ => idle_closing
      | processSource delivery jobId sourceId generation =>
          refine hidle fun s hs => Prog.Ensures.seq ?_ fun _ _ hs' => hs'
          refine Prog.Ensures.seq idle_closing fun start s' hs' => ?_
          split
          · exact hs'
          · split
            · refine Prog.Ensures.seq ?_ fun _ s'' hs'' => ?_
              · refine Prog.Ensures.tryCatch (E := fun _ s' => s'.Idle t)
                  (idle_closing.mono fun r s'' hs'' => ?_) fun _ _ hs'' => hs''
                cases r <;> exact hs''
              · split <;> exact hs''
            · exact idle_closing
      | _ => exact idle_request

/-- A serial run: operations of the API, and tasks of the worker that are in the queue, one after
another. -/
abbrev SerialRun : AppDb → AppDb → Prop :=
  Relation.ReflTransGen (SerialStep SerialOperation.program fun op _ => op.Enqueued)

/-- A run goes on with an operation of the application. -/
theorem SerialRun.operation {s s' : AppDb} {op : Operation} {r : Except DomainError Unit}
    (hrun : SerialRun s₀ s) (h : op.program.runAlone t s = some (r, s'))
    (hop : SerialOperation.Enqueued (.operation op)) : SerialRun s₀ s' :=
  hrun.tail (.run hop h)

/-- The statuses stay coupled in serial runs, and the transactions are closed in between. -/
theorem coupled_of_run {s : AppDb} (hquiet : s₀.Quiet)
    (hcoupled : (Rows.statuses s₀.committed).Coupled) (htasks : TasksBegun s₀)
    (hrun : SerialRun s₀ s) : s.Quiet ∧ CoupledSince s₀ s := by
  induction hrun with
  | refl => exact ⟨hquiet, .refl hcoupled htasks⟩
  | tail _ hstep ih =>
      obtain ⟨hquiet, hs⟩ := ih
      cases hstep with
      | @run op t _ _ r hop hprog =>
          refine ⟨(Prog.Ensures.quiet hquiet (idle_program op (Db.idle_of_quiet hquiet t))).of_runAlone
            hprog, ?_⟩
          have hend := (leads_program hop _ (.of_quiet hs hquiet t)).of_runAlone hprog
          rcases r with e | a
          · exact hend.1
          · obtain ⟨_, _, -, hs'⟩ := hend
            exact hs'.since
      | tick n => exact ⟨hquiet, hs.of_same rfl rfl rfl⟩

/-! ## Documents in step with their jobs -/

/-- The document has a current job with one of the statuses. -/
def CurrentJobIn (rows : Rows) (row : Document) (statuses : List AnalysisJobStatus) : Prop :=
  ∃ (jobId : Uuid) (job : AnalysisJob), row.currentAnalysisJobId = some jobId ∧
    rows (.job jobId) = some job ∧ job.status ∈ statuses

/-- **Documents and jobs are in step**: the status of a document is the one that goes with its
current job, and an active job is the current one of its document. -/
structure InStep (rows : Rows) : Prop where
  exists_job : ∀ id (row : Document) jobId, rows (.document id) = some row →
    row.currentAnalysisJobId = some jobId →
      ∃ job : AnalysisJob, rows (.job jobId) = some job ∧ job.documentId = id
  draft : ∀ id (row : Document), rows (.document id) = some row →
    row.currentAnalysisJobId = none ∨ CurrentJobIn rows row [.pending, .failed, .cancelled] →
      row.status = .draft
  inProgress : ∀ id (row : Document), rows (.document id) = some row →
    (CurrentJobIn rows row [.dispatched, .processing] ↔ row.status = .inProgress)
  reviewed : ∀ id (row : Document), rows (.document id) = some row →
    (CurrentJobIn rows row [.success, .partialSuccess] ↔
      row.status = .awaitingApproval ∨ row.status = .ready)
  active_current : ∀ jobId (job : AnalysisJob), rows (.job jobId) = some job →
    AnalysisJobLifecycle.isActive job.status = true →
      ∃ row : Document, rows (.document job.documentId) = some row ∧
        row.currentAnalysisJobId = some jobId
  active_unique : ∀ jobId jobId' (job job' : AnalysisJob), rows (.job jobId) = some job →
    rows (.job jobId') = some job' → job.documentId = job'.documentId →
      AnalysisJobLifecycle.isActive job.status = true →
        AnalysisJobLifecycle.isActive job'.status = true → jobId = jobId'

section inStep

variable {rows : Rows}

/-- The current job of a document goes with its status. -/
theorem exists_current (hS : rows.statuses.Coupled) {id : Uuid} {row : Document}
    (hrow : rows (.document id) = some row) {jobId : Uuid}
    (hcurrent : row.currentAnalysisJobId = some jobId) :
    ∃ job : AnalysisJob, rows (.job jobId) = some job ∧ job.documentId = id ∧
      job.status.Matches row.status := by
  obtain ⟨y, hy, howner, hmatches⟩ :=
    hS.current id row.state jobId (Rows.statuses_document hrow) hcurrent
  obtain ⟨job, hjob, rfl⟩ := Option.map_eq_some_iff.mp hy
  exact ⟨job, hjob, howner, hmatches⟩

/-- Which statuses the current job can have where the document is no draft. -/
theorem currentJobIn_iff (hS : rows.statuses.Coupled) {id : Uuid} {row : Document}
    (hrow : rows (.document id) = some row) {statuses : List AnalysisJobStatus}
    {R : DocumentStatus → Prop} (hdraft : ¬ R .draft)
    (hR : ∀ status d, AnalysisJobStatus.Matches status d → (status ∈ statuses ↔ R d)) :
    CurrentJobIn rows row statuses ↔ R row.status := by
  constructor
  · rintro ⟨jobId, job, hcurrent, hjob, hmem⟩
    obtain ⟨job', hjob', -, hmatches⟩ := exists_current hS hrow hcurrent
    obtain rfl := Option.some.inj (hjob.symm.trans hjob')
    exact (hR _ _ hmatches).mp hmem
  · intro hstatus
    rcases hcurrent : row.currentAnalysisJobId with _ | jobId
    · have hnone := hS.draft id row.state (Rows.statuses_document hrow) hcurrent
      rw [show row.status = .draft from hnone] at hstatus
      exact absurd hstatus hdraft
    · obtain ⟨job, hjob, -, hmatches⟩ := exists_current hS hrow hcurrent
      exact ⟨jobId, job, hcurrent, hjob, (hR _ _ hmatches).mpr hstatus⟩

/-- A job in step goes with the status of its document. -/
theorem InStep.matches (h : InStep rows) {id : Uuid} {row : Document}
    (hrow : rows (.document id) = some row) {jobId : Uuid} {job : AnalysisJob}
    (hcurrent : row.currentAnalysisJobId = some jobId) (hjob : rows (.job jobId) = some job) :
    job.status.Matches row.status := by
  have hin : ∀ {statuses : List AnalysisJobStatus}, job.status ∈ statuses →
      CurrentJobIn rows row statuses := fun hmem => ⟨jobId, job, hcurrent, hjob, hmem⟩
  rcases hstatus : job.status
  case pending | failed | cancelled => exact h.draft id row hrow (.inr (hin (by simp [hstatus])))
  case dispatched | processing => exact (h.inProgress id row hrow).mp (hin (by simp [hstatus]))
  case success | partialSuccess => exact (h.reviewed id row hrow).mp (hin (by simp [hstatus]))

/-- Documents and jobs in step have coupled statuses. -/
theorem coupled_of_inStep (h : InStep rows) : rows.statuses.Coupled where
  current id x jobId hx hcurrent := by
    obtain ⟨row, hrow, rfl⟩ := Option.map_eq_some_iff.mp hx
    obtain ⟨job, hjob, howner⟩ := h.exists_job id row jobId hrow hcurrent
    exact ⟨job.state, Rows.statuses_job hjob, howner, h.matches hrow hcurrent hjob⟩
  draft id x hx hcurrent := by
    obtain ⟨row, hrow, rfl⟩ := Option.map_eq_some_iff.mp hx
    exact h.draft id row hrow (.inl hcurrent)
  active jobId y hy hactive := by
    obtain ⟨job, hjob, rfl⟩ := Option.map_eq_some_iff.mp hy
    obtain ⟨row, hrow, hcurrent⟩ := h.active_current jobId job hjob hactive
    exact ⟨row.state, Rows.statuses_document hrow, hcurrent⟩

/-- Coupled statuses are statuses in step. -/
theorem inStep_of_coupled (hS : rows.statuses.Coupled) : InStep rows where
  exists_job id row jobId hrow hcurrent := by
    obtain ⟨job, hjob, howner, -⟩ := exists_current hS hrow hcurrent
    exact ⟨job, hjob, howner⟩
  draft id row hrow hstatus := by
    rcases hstatus with hnone | ⟨jobId, job, hcurrent, hjob, hmem⟩
    · exact hS.draft id row.state (Rows.statuses_document hrow) hnone
    · obtain ⟨job', hjob', -, hmatches⟩ := exists_current hS hrow hcurrent
      obtain rfl := Option.some.inj (hjob.symm.trans hjob')
      exact hmatches.draft_iff.mp hmem
  inProgress id row hrow :=
    currentJobIn_iff hS hrow (R := fun d => d = .inProgress) (by decide) fun _ _ h =>
      h.inProgress_iff
  reviewed id row hrow :=
    currentJobIn_iff hS hrow (R := fun d => d = .awaitingApproval ∨ d = .ready) (by decide)
      fun _ _ h => h.reviewed_iff
  active_current jobId job hjob hactive := by
    obtain ⟨x, hx, hcurrent⟩ := hS.active jobId job.state (Rows.statuses_job hjob) hactive
    obtain ⟨row, hrow, rfl⟩ := Option.map_eq_some_iff.mp hx
    exact ⟨row, hrow, hcurrent⟩
  active_unique jobId jobId' job job' hjob hjob' hdocument hactive hactive' :=
    hS.active_unique (Rows.statuses_job hjob) (Rows.statuses_job hjob') hdocument hactive hactive'

end inStep

/-- **Documents and jobs stay in step in serial runs**: if they are in step and every task in the
queue is about a job that was dispatched, then after every serial run they are in step; every
transaction of the run changed the statuses along the transitions; and no operation that runs then
raises the exception of a refused transition. -/
theorem documents_and_jobs_in_step (s₀ s : AppDb) (hquiet : s₀.Quiet) (hstep : InStep s₀.committed)
    (htasks : TasksBegun s₀) (hrun : SerialRun s₀ s) :
    InStep s.committed ∧ Db.Commits LegalChange s₀ s ∧
      ∀ (op : SerialOperation) (t : Process) (e : DomainError) (s' : AppDb), op.Enqueued →
        op.program.runAlone t s = some (.error e, s') → e.isTransition = false := by
  obtain ⟨hquiet', hs⟩ := coupled_of_run hquiet (coupled_of_inStep hstep) htasks hrun
  refine ⟨inStep_of_coupled hs.coupled, hs.commits, fun op t e s' hop hprog => ?_⟩
  exact ((leads_program hop _ (.of_quiet hs hquiet' t)).of_runAlone hprog).2

/-- From an empty database a document is uploaded, its analysis is started, and the final task ends
it. -/
theorem analysed_document_in_step :
    ∃ s : AppDb, SerialRun (AppDb.ofRows [] []) s ∧ documentStatus s (0, 0) = some .ready ∧
      InStep s.committed := by
  have hrun : ((Operation.upload 10 (9, 2)
        { filename := "a.txt", format := some .txt, extension := ".txt", size := 1
          stored := true }).program.runAlone 0 (AppDb.ofRows [] [])).any (fun a =>
      ((Operation.start (9, 2) (0, 0) none false true (.accepted "t")).program.runAlone 1 a.2).any
        fun b => ((Operation.finalize (some []) [] (1, 0)).program.runAlone 2 b.2).any fun c =>
          documentStatus c.2 (0, 0) = some .ready) = true := by
    decide +kernel
  obtain ⟨⟨_, s₁⟩, hupload, hrun⟩ := (Option.any_eq_true _ _).mp hrun
  obtain ⟨⟨_, s₂⟩, hstart, hrun⟩ := (Option.any_eq_true _ _).mp hrun
  obtain ⟨⟨_, s₃⟩, hfinalize, hready⟩ := (Option.any_eq_true _ _).mp hrun
  have h₁ : SerialRun (AppDb.ofRows [] []) s₁ := SerialRun.operation .refl hupload trivial
  have h₂ : SerialRun (AppDb.ofRows [] []) s₂ := SerialRun.operation h₁ hstart trivial
  have h₃ : SerialRun (AppDb.ofRows [] []) s₃ := SerialRun.operation h₂ hfinalize rfl
  have hempty : InStep (AppDb.ofRows [] []).committed :=
    inStep_of_coupled (Statuses.coupled_of_none (fun _ => rfl) fun _ => rfl)
  exact ⟨s₃, h₃, of_decide_eq_true hready,
    (documents_and_jobs_in_step _ s₃ (fun _ => rfl) hempty (fun _ _ h => nomatch h) h₃).1⟩

end SyncBack
