import SyncBack.Application.CouplingRules

/-!
# Sessions over coupled statuses

What the parts of a session do to the statuses that it sees. `Leads s₀ t p base view Φ` says of a
part `p`: from a session that sees `view` where `base` is committed it ends with a value, and in a
session that sees other statuses over others, as `Φ` says; or it raises an exception that is not
about a transition. The rules follow the programs.
-/

namespace SyncBack

open Txn Session

variable {s₀ : AppDb} {t : Process} {base view : Statuses Uuid Uuid} {α β : Type}

/-- Where a part of a session leads. -/
def Leads (s₀ : AppDb) (t : Process) (p : Session α) (base view : Statuses Uuid Uuid)
    (Φ : α → Statuses Uuid Uuid → Statuses Uuid Uuid → Prop) : Prop :=
  ∀ s, InSession s₀ t base view s → p.Ensures t s
    (ending (fun a s' => ∃ base' view', Φ a base' view' ∧ InSession s₀ t base' view' s')
      (FailsSince s₀))

namespace Leads

variable {Φ : α → Statuses Uuid Uuid → Statuses Uuid Uuid → Prop}
  {Ψ : β → Statuses Uuid Uuid → Statuses Uuid Uuid → Prop}

/-- Returning a value. -/
theorem pure {a : α} (h : Φ a base view) : Leads s₀ t (pure a : Session α) base view Φ :=
  fun _ hs => ⟨base, view, h, hs⟩

/-- An exception that no transition raises. -/
theorem throw {e : DomainError} (he : e.isTransition = false) :
    Leads s₀ t (throw e : Session α) base view Φ :=
  fun _ hs => ⟨hs.since, he⟩

/-- One part after another. -/
theorem bind {p : Session α} {g : α → Session β} (h : Leads s₀ t p base view Φ)
    (hg : ∀ a base' view', Φ a base' view' → Leads s₀ t (g a) base' view' Ψ) :
    Leads s₀ t (p >>= g) base view Ψ :=
  fun s hs => (h s hs).andThen fun a s' ⟨base', view', hΦ, hs'⟩ => hg a base' view' hΦ s' hs'

/-- What is committed is coupled at any time. -/
theorem of_coupled {p : Session α} (h : base.Coupled → Leads s₀ t p base view Φ) :
    Leads s₀ t p base view Φ :=
  fun s hs => h hs.coupled s hs

/-- The handler begins wherever the exception was raised. -/
theorem tryCatch {p : Session α} {g : DomainError → Session α} (h : Leads s₀ t p base view Φ)
    (hg : ∀ e base' view', e.isTransition = false → Leads s₀ t (g e) base' view' Φ) :
    Leads s₀ t (p.tryCatch g) base view Φ :=
  fun s hs => (h s hs).tryCatch fun e s' he => hg e _ _ he.2 s' ⟨he.1, rfl, rfl⟩

/-- A unit of work. -/
theorem withUow {p : Session α} (h : Leads s₀ t p base view Φ) :
    Leads s₀ t (withUow p) base view Φ := by
  refine fun s hs => (h s hs).tryCatch fun e s' he => ?_
  rintro b s'' hex
  obtain ⟨-, rfl⟩ := Prod.mk.inj (Option.some.inj hex)
  exact ⟨he.1.rollback, he.2⟩

/-- **A commit**, of the statuses that a step leads to. -/
theorem commit {rest : Unit → Session β} (hstep : Relation.ReflGen Statuses.Step base view)
    (h : Leads s₀ t (rest ()) view view Ψ) :
    Leads s₀ t (Session.commit >>= rest) base view Ψ := by
  refine fun s hs => ?_
  rintro b s' hex
  obtain ⟨-, rfl⟩ := Prod.mk.inj (Option.some.inj hex)
  exact h _ (hs.commit hstep)

/-- The end of a session: nothing is left uncommitted. -/
theorem closing {p : Session α} (h : Leads s₀ t p base view Φ) :
    Leads s₀ t (closing p) base view fun _ base' view' => view' = base' := by
  refine h.withUow.bind fun a base' view' _ => fun s hs => ?_
  rintro b s' hex
  obtain ⟨-, rfl⟩ := Prod.mk.inj (Option.some.inj hex)
  exact ⟨base', base', rfl, hs.rollback⟩

/-- A part that keeps the statuses. -/
theorem keeps {p : Session α} {rest : α → Session β} {R : α → Prop}
    (hp : Keeps KeepsStatuses p) (hr : p.Returns R)
    (h : ∀ a, R a → Leads s₀ t (rest a) base view Ψ) : Leads s₀ t (p >>= rest) base view Ψ := by
  refine bind (Φ := fun a base' view' => R a ∧ base' = base ∧ view' = view) (fun s hs => ?_) ?_
  · refine (Prog.Ensures.of_parts (fun _ _ _ hf hs he => hs.keeps hf he) hp.sends hr hp.raises
      hs).mono fun r s' => ?_
    rcases r with e | a
    · exact fun h => ⟨h.2.since, h.1⟩
    · exact fun h => ⟨base, view, ⟨h.1, rfl, rfl⟩, h.2⟩
  · rintro a _ _ ⟨ha, rfl, rfl⟩
    exact h a ha

/-- A part that may end transactions, where nothing is uncommitted. -/
theorem settles {p : Session α} {rest : α → Session β} {R : α → Prop} (hp : Keeps Settles p)
    (hr : p.Returns R) (h : ∀ a, R a → Leads s₀ t (rest a) base base Ψ) :
    Leads s₀ t (p >>= rest) base base Ψ := by
  refine bind (Φ := fun a base' view' => R a ∧ base' = base ∧ view' = base) (fun s hs => ?_) ?_
  · refine (Prog.Ensures.of_parts (fun _ _ _ hf hs he => hs.settles hf he) hp.sends hr hp.raises
      hs).mono fun r s' => ?_
    rcases r with e | a
    · exact fun h => ⟨h.2.since, h.1⟩
    · exact fun h => ⟨base, base, ⟨h.1, rfl, rfl⟩, h.2⟩
  · rintro a _ _ ⟨ha, rfl, rfl⟩
    exact h a ha

/-- A last part that keeps the statuses. -/
theorem of_keeps {p : Session α} (hp : Keeps KeepsStatuses p) :
    Leads s₀ t p base view fun _ _ _ => True := by
  refine fun s hs => (Prog.Ensures.of_parts (R := fun _ => True) (fun _ _ _ hf hs he =>
    hs.keeps hf he) hp.sends (Prog.Returns.any fun _ => trivial) hp.raises hs).mono fun r s' => ?_
  rcases r with e | a
  · exact fun h => ⟨h.2.since, h.1⟩
  · exact fun h => ⟨base, view, trivial, h.2⟩

/-- A last part that may end transactions. -/
theorem of_settles {p : Session α} (hp : Keeps Settles p) :
    Leads s₀ t p base base fun _ base' view' => view' = base' := by
  refine fun s hs => (Prog.Ensures.of_parts (R := fun _ => True) (fun _ _ _ hf hs he =>
    hs.settles hf he) hp.sends (Prog.Returns.any fun _ => trivial) hp.raises hs).mono fun r s' => ?_
  rcases r with e | a
  · exact fun h => ⟨h.2.since, h.1⟩
  · exact fun h => ⟨base, base, rfl, h.2⟩

/-- A part that keeps the statuses, whatever it returns. -/
theorem keeps_any {p : Session α} {rest : α → Session β} (hp : Keeps KeepsStatuses p)
    (h : ∀ a, Leads s₀ t (rest a) base view Ψ) : Leads s₀ t (p >>= rest) base view Ψ :=
  keeps (R := fun _ => True) hp (Prog.Returns.any fun _ => trivial) fun a _ => h a

/-- A part that settles leads back to what is committed. -/
theorem settles_any {p : Session α} {rest : α → Session β} (hp : Keeps Settles p)
    (h : ∀ a, Leads s₀ t (rest a) base base Ψ) : Leads s₀ t (p >>= rest) base base Ψ :=
  settles (R := fun _ => True) hp (Prog.Returns.any fun _ => trivial) fun a _ => h a

/-! ### Documents -/

section documents

variable {documentId : Uuid}

/-- A document that is read has the status in view. -/
theorem getDocument {rest : Option (Loaded Document) → Session β}
    (hfound : ∀ row : Document, view.document documentId = some row.state →
      Leads s₀ t (rest (some ⟨documentId, row⟩)) base view Ψ)
    (hmissing : Leads s₀ t (rest none) base view Ψ) :
    Leads s₀ t (DocumentRepository.getById documentId >>= rest) base view Ψ := by
  refine fun s hs => ?_
  rintro b s' hex
  obtain ⟨rfl, rfl⟩ := Prod.mk.inj (Option.some.inj hex)
  rcases hrow : s.read t (.document documentId) with _ | row
  · exact hmissing s hs
  · exact hfound row (hs.document hrow) s hs

/-- A document of the project is read, with its status in the view. -/
theorem getDocumentOrRaise {projectId : Uuid} {rest : Loaded Document → Session β}
    (h : ∀ row : Document, view.document documentId = some row.state →
      Leads s₀ t (rest ⟨documentId, row⟩) base view Ψ) :
    Leads s₀ t (SyncBack.getDocumentOrRaise projectId documentId >>= rest) base view Ψ := by
  unfold SyncBack.getDocumentOrRaise
  rw [Prog.bind_assoc']
  refine getDocument (fun row hrow => ?_) (throw rfl)
  dsimp only
  split
  · exact h row hrow
  · exact throw rfl

/-- Flushing a document whose status is in view. -/
theorem flushDocument {f : Document → Document} {x : DocumentState Uuid} {a : α}
    {rest : α → Session β}
    (hview : ∀ row : Document, view.document documentId = some row.state → (f row).state = x)
    (h : Leads s₀ t (rest a) base (view.setDocument documentId x) Ψ) :
    Leads s₀ t ((update (.document documentId) (fun _ => true) f >>= fun o => flushed o >>= fun _ =>
      (Pure.pure a : Session α)) >>= rest) base view Ψ := by
  rw [Prog.bind_assoc']
  refine fun s hs => Prog.Ensures.update (fun _ _ _ => rfl) (fun _ => ?_) fun row hrow _ => ?_
  · exact ⟨hs.since, rfl⟩
  · have hwritten := hs.writeDocument documentId (f row)
    rw [hview row (hs.document hrow)] at hwritten
    exact h _ hwritten

/-- A new status goes into the view. -/
theorem updateStatus {row : Document} {status : DocumentStatus} {basis : Basis}
    {rest : Loaded Document → Session β} (hview : view.document documentId = some row.state)
    (h : ∀ new : Document, new.state = ⟨status, row.currentAnalysisJobId⟩ →
      Leads s₀ t (rest ⟨documentId, new⟩) base (view.setDocument documentId new.state) Ψ) :
    Leads s₀ t (DocumentRepository.updateStatus ⟨documentId, row⟩ status basis >>= rest) base view
      Ψ := by
  dsimp only [DocumentRepository.updateStatus]
  split
  · rename_i hsame
    have hnew := h row (by rw [hsame]; rfl)
    rwa [Statuses.setDocument_self hview] at hnew
  · refine flushDocument (x := ⟨status, row.currentAnalysisJobId⟩) (fun current hcurrent => ?_)
      (h (row.withStatus status basis) rfl)
    have hstate : row.state = current.state := Option.some.inj (hview.symm.trans hcurrent)
    have hjob : row.currentAnalysisJobId = current.currentAnalysisJobId :=
      congrArg DocumentState.currentJob hstate
    rw [hjob]
    rfl

/-- A legal change of the status raises nothing. -/
theorem setDocumentStatus {row : Document} {target : DocumentStatus} {basis : Basis}
    {rest : Loaded Document → Session β} (hview : view.document documentId = some row.state)
    (hlegal : target ∈ documentTransitions row.status)
    (h : ∀ new : Document, new.state = ⟨target, row.currentAnalysisJobId⟩ →
      Leads s₀ t (rest ⟨documentId, new⟩) base (view.setDocument documentId new.state) Ψ) :
    Leads s₀ t (AnalysisJobService.setDocumentStatus ⟨documentId, row⟩ target basis >>= rest) base
      view Ψ := by
  have htransition : documentTransition row.status target = Pure.pure target := by
    simp only [documentTransition, DocumentLifecycle.transition_eq_some.mpr ⟨rfl, hlegal⟩]
  dsimp only [AnalysisJobService.setDocumentStatus]
  rw [htransition, Prog.pure_bind']
  exact updateStatus hview h

/-- A new current job goes into the view. -/
theorem setCurrentJob {row : Document} {jobId : Uuid} {rest : Loaded Document → Session β}
    (hview : view.document documentId = some row.state)
    (h : ∀ new : Document, new.state = ⟨row.status, some jobId⟩ →
      Leads s₀ t (rest ⟨documentId, new⟩) base (view.setDocument documentId new.state) Ψ) :
    Leads s₀ t (DocumentRepository.setCurrentJob ⟨documentId, row⟩ (some jobId) >>= rest) base view
      Ψ := by
  dsimp only [DocumentRepository.setCurrentJob]
  split
  · rename_i hsame
    have hnew := h row (by rw [hsame]; rfl)
    rwa [Statuses.setDocument_self hview] at hnew
  · refine flushDocument (x := ⟨row.status, some jobId⟩) (fun current hcurrent => ?_)
      (h (row.withCurrentJob (some jobId)) rfl)
    have hstate : row.state = current.state := Option.some.inj (hview.symm.trans hcurrent)
    have hstatus : row.status = current.status := congrArg DocumentState.status hstate
    rw [hstatus]
    rfl

end documents

/-! ### Jobs -/

section jobs

variable {jobId : Uuid}

/-- A job that is read has the status in view. -/
theorem getJob {rest : Option (Loaded AnalysisJob) → Session β}
    (hfound : ∀ row : AnalysisJob, view.job jobId = some row.state →
      Leads s₀ t (rest (some ⟨jobId, row⟩)) base view Ψ)
    (hmissing : Leads s₀ t (rest none) base view Ψ) :
    Leads s₀ t (AnalysisJobRepository.getById jobId >>= rest) base view Ψ := by
  refine fun s hs => ?_
  rintro b s' hex
  obtain ⟨rfl, rfl⟩ := Prod.mk.inj (Option.some.inj hex)
  rcases hrow : s.read t (.job jobId) with _ | row
  · exact hmissing s hs
  · exact hfound row (hs.job hrow) s hs

/-- The rows that `getActiveByDocumentId` asks for. -/
def activeRow (documentId : Uuid) : (k : Key) → Row k → Bool
  | .job _, row => row.documentId = documentId && AnalysisJobLifecycle.isActive row.status
  | _, _ => false

/-- Where no active job is found there is none. -/
theorem getActiveByDocumentId {documentId : Uuid} {rest : Option (Loaded AnalysisJob) → Session β}
    (hfound : ∀ job, Leads s₀ t (rest (some job)) base view Ψ)
    (hnone : (∀ j y, view.job j = some y → y.document = documentId →
      AnalysisJobLifecycle.isActive y.status = false) → Leads s₀ t (rest none) base view Ψ) :
    Leads s₀ t (AnalysisJobRepository.getActiveByDocumentId documentId >>= rest) base view Ψ := by
  refine fun s hs => ?_
  rintro b s' hex
  obtain ⟨rfl, rfl⟩ := Prod.mk.inj (Option.some.inj hex)
  rcases hlast : (AnalysisJobRepository.jobs (s.select t (activeRow documentId))).getLast?
    with _ | job
  · have hidle : ∀ j y, view.job j = some y → y.document = documentId →
        AnalysisJobLifecycle.isActive y.status = false := by
      intro j y hy hdocument
      obtain ⟨row, hrow, rfl⟩ := hs.exists_job hy
      by_contra hactive
      rw [Bool.not_eq_false] at hactive
      have hmem : (⟨j, row⟩ : Loaded AnalysisJob) ∈
          AnalysisJobRepository.jobs (s.select t (activeRow documentId)) := by
        refine AnalysisJobRepository.mem_jobs.mpr (Db.mem_select.mpr ⟨hrow, ?_⟩)
        exact Bool.and_eq_true_iff.mpr ⟨decide_eq_true hdocument, hactive⟩
      rw [List.getLast?_eq_none_iff.mp hlast] at hmem
      exact absurd hmem List.not_mem_nil
    have hrest := hnone hidle s hs
    rw [← hlast] at hrest
    exact hrest
  · have hrest := hfound job s hs
    rw [← hlast] at hrest
    exact hrest

/-- Flushing a job whose status is in view. -/
theorem flushJob {row new : AnalysisJob} {rest : Loaded AnalysisJob → Session β}
    (hview : view.job jobId = some row.state)
    (h : Leads s₀ t (rest ⟨jobId, new⟩) base (view.setJob jobId new.state) Ψ) :
    Leads s₀ t (Session.flushJob ⟨jobId, row⟩ new >>= rest) base view Ψ := by
  dsimp only [Session.flushJob]
  split
  · rename_i hsame
    subst hsame
    rwa [Statuses.setJob_self hview] at h
  · refine fun s hs => ?_
    rintro b s' hex
    rcases exec_update_cases hex with ⟨rfl, rfl, -⟩ | ⟨rfl, rfl, -⟩ |
      ⟨current, -, hcurrent, -, -, rfl, rfl⟩
    · exact ⟨hs.since, rfl⟩
    · exact ⟨hs.since, rfl⟩
    · have hstate : row.state = current.state := Option.some.inj (hview.symm.trans (hs.job hcurrent))
      have honto : (AnalysisJob.onto row new current).state = new.state := by
        have hdocument : row.documentId = current.documentId := congrArg JobState.document hstate
        have hstatus : row.status = current.status := congrArg JobState.status hstate
        simp only [AnalysisJob.state, AnalysisJob.onto, ← hdocument, ← hstatus, column_loaded]
      have hwritten := hs.writeJob jobId (AnalysisJob.onto row new current)
      rw [honto] at hwritten
      exact h _ hwritten

/-- A new status of a job goes into the view. -/
theorem updateJobStatus {row : AnalysisJob} {status : AnalysisJobStatus}
    {errorCode errorMessage : Option String} {rest : Loaded AnalysisJob → Session β}
    (hview : view.job jobId = some row.state)
    (h : ∀ new : AnalysisJob, new.state = ⟨row.documentId, status⟩ →
      Leads s₀ t (rest ⟨jobId, new⟩) base (view.setJob jobId new.state) Ψ) :
    Leads s₀ t (AnalysisJobRepository.updateStatus ⟨jobId, row⟩ status errorCode errorMessage >>=
      rest) base view Ψ := by
  refine fun s hs => Prog.Ensures.now ?_
  exact flushJob hview
    (h (AnalysisJobRepository.withStatus row status errorCode errorMessage s.clock) rfl) s hs

/-- A job is inserted under an identifier without one; an active rival is reported. -/
theorem createForDocument {document : Loaded Document} {status : AnalysisJobStatus}
    {idempotencyKey : Option String} {rest : Loaded AnalysisJob → Session β}
    (h : ∀ (id : Uuid) (row : AnalysisJob), view.job id = none →
      row.state = ⟨document.id, status⟩ →
        Leads s₀ t (rest ⟨id, row⟩) base (view.setJob id row.state) Ψ) :
    Leads s₀ t (AnalysisJobRepository.createForDocument document status idempotencyKey >>= rest)
      base view Ψ := by
  refine fun s hs => ?_
  rintro id s₁ hdraw
  have hs₁ := hs.keeps .draw (exec_effect hdraw)
  rintro inserted s' hex
  rcases exec_insert_cases hex with ⟨rfl, rfl, -⟩ | ⟨-, hnew, -, rfl, rfl⟩
  · exact ⟨hs₁.since, rfl⟩
  · refine h id { documentId := document.id, status, idempotencyKey } ?_ rfl _
      (hs₁.writeJob id _)
    rw [← hs₁.read]
    exact congrArg (Option.map AnalysisJob.state) hnew

/-- An active job that was begun is in processing then. -/
theorem markProcessingIfActive {rest : Bool → Session β} (hbegun : view.Begun jobId)
    (hkept : Leads s₀ t (rest false) base view Ψ)
    (hmoved : ∀ y, view.job jobId = some y → AnalysisJobLifecycle.isActive y.status = true →
      y.status ≠ .pending →
        Leads s₀ t (rest true) base (view.setJob jobId ⟨y.document, .processing⟩) Ψ) :
    Leads s₀ t (AnalysisJobRepository.markProcessingIfActive jobId >>= rest) base view Ψ := by
  refine fun s hs => Prog.Ensures.now ?_
  rintro b s' hex
  rcases exec_update_cases hex with ⟨rfl, rfl, -⟩ | ⟨rfl, rfl, -⟩ |
    ⟨row, -, hrow, hactive, -, rfl, rfl⟩
  · exact hkept _ hs
  · exact ⟨hs.since, rfl⟩
  · obtain ⟨y, hy, hne⟩ := hbegun
    have hview := hs.job hrow
    obtain rfl := Option.some.inj (hy.symm.trans hview)
    exact hmoved _ hview hactive hne _ (hs.writeJob jobId (AnalysisJob.begun s.clock row))

end jobs

/-! ### Messages -/

/-- A message about a job that was begun. -/
theorem send {jobId : Uuid} {sourceIds : List Uuid} {rest : Unit → Session β}
    (hbegun : base.Begun jobId) (h : Leads s₀ t (rest ()) base view Ψ) :
    Leads s₀ t (Session.send (.analysis jobId sourceIds) >>= rest) base view Ψ := by
  refine fun s hs => ?_
  rintro b s' hex
  obtain ⟨-, rfl⟩ := Prod.mk.inj (Option.some.inj hex)
  refine h _ ⟨⟨hs.since.coupled, fun jobId' sourceIds' hmem => ?_, hs.since.commits.of_same rfl rfl⟩,
    hs.committed, hs.read⟩
  rcases List.mem_append.mp hmem with hmem | hmem
  · exact hs.since.enqueued jobId' sourceIds' hmem
  · obtain ⟨rfl, rfl⟩ := Message.analysis.inj (List.mem_singleton.mp hmem)
    exact hs.committed ▸ hbegun

/-- The message that a task was delivered with is about a job that was begun. -/
theorem delivered {jobId : Uuid} {sourceIds : List Uuid} {rest : Unit → Session β}
    (h : base.Begun jobId → Leads s₀ t (rest ()) base view Ψ) :
    Leads s₀ t (Session.delivered (some sourceIds) jobId >>= rest) base view Ψ := by
  refine fun s hs => ?_
  rintro b s' hex
  by_cases hmem : Message.analysis jobId sourceIds ∈ s.sent
  · simp only [exec, if_pos hmem] at hex
    obtain ⟨-, rfl⟩ := Prod.mk.inj (Option.some.inj hex)
    exact h (hs.committed ▸ hs.since.enqueued jobId sourceIds hmem) _ hs
  · simp only [exec, if_neg hmem] at hex
    cases hex

/-- A request leads where its transaction has committed. -/
theorem request {p : Session α} (h : Leads s₀ t p base view Φ) :
    Leads s₀ t (Session.request p) base view fun _ base' view' => view' = base' :=
  h.closing.bind fun _ _ _ hend => pure hend

end Leads

/-- Another copy of the document has the status in view as well. -/
theorem SameReading.document_view {d d' : Loaded Document} (h : SameReading d d')
    (hview : view.document d.id = some d.row.state) :
    view.document d'.id = some d'.row.state := by
  obtain ⟨hid, hstatus, hjob⟩ := h
  rw [hid, hview, Document.state, Document.state, hstatus, hjob]

/-! ## A job and its document -/

/-- `jobId` is the current job of the document, and both have the statuses in view. -/
structure Linked (view : Statuses Uuid Uuid) (jobId documentId : Uuid) (job : AnalysisJob)
    (document : Document) : Prop where
  job_view : view.job jobId = some job.state
  document_view : view.document documentId = some document.state
  owner : job.documentId = documentId
  current : document.currentAnalysisJobId = some jobId
  goes : job.status.Matches document.status

namespace Linked

variable {jobId documentId : Uuid} {job : AnalysisJob} {document : Document}

/-- The current job of a document that is read. -/
theorem of_current (hS : view.Coupled) (hjob : view.job jobId = some job.state)
    (hdocument : view.document documentId = some document.state)
    (hcurrent : document.currentAnalysisJobId = some jobId) :
    Linked view jobId documentId job document := by
  obtain ⟨y, hy, howner, hmatches⟩ := hS.current documentId document.state jobId hdocument hcurrent
  obtain rfl := Option.some.inj (hjob.symm.trans hy)
  exact ⟨hjob, hdocument, howner, hcurrent, hmatches⟩

/-- An active job is the current one of its document. -/
theorem of_active (hS : view.Coupled) (hjob : view.job jobId = some job.state)
    (hdocument : view.document job.documentId = some document.state)
    (hactive : AnalysisJobLifecycle.isActive job.status = true) :
    Linked view jobId job.documentId job document := by
  obtain ⟨x, hx, hcurrent⟩ := hS.active jobId job.state hjob hactive
  obtain rfl := Option.some.inj (hdocument.symm.trans hx)
  exact of_current hS hjob hdocument hcurrent

/-- The step of the job and its document. -/
theorem step (h : Linked view jobId documentId job document) {target : AnalysisJobStatus}
    (hlegal : target ∈ jobTransitions job.status) (hne : target ≠ .processing) (b : Bool) :
    Statuses.Step view (view.move documentId jobId target
      (AnalysisJobLifecycle.documentStatusFor target b)) :=
  .move h.document_view h.current h.job_view h.owner (.inr hlegal)
    (.inr (AnalysisJobLifecycle.documentStatusFor_mem h.goes hlegal hne b))
    (AnalysisJobLifecycle.matches_documentStatusFor target b)

/-- A job and its document that move together. -/
theorem move_eq (h : Linked view jobId documentId job document) {job' : AnalysisJob}
    {document' : Document} {target : AnalysisJobStatus} {status : DocumentStatus}
    (hjob : job'.state = ⟨job.documentId, target⟩)
    (hdocument : document'.state = ⟨status, document.currentAnalysisJobId⟩) :
    (view.setJob jobId job'.state).setDocument documentId document'.state =
      view.move documentId jobId target status := by
  rw [hjob, hdocument, h.owner, h.current]
  rfl

/-- After both have moved. -/
theorem of_move {job : AnalysisJob} {document : Document} {target : AnalysisJobStatus}
    {status : DocumentStatus} (hjob : job.state = ⟨documentId, target⟩)
    (hdocument : document.state = ⟨status, some jobId⟩) (hgoes : target.Matches status) :
    Linked (view.move documentId jobId target status) jobId documentId job document where
  job_view := by rw [Statuses.move_job, if_pos rfl, hjob]
  document_view := by rw [Statuses.move_document, if_pos rfl, hdocument]
  owner := congrArg JobState.document hjob
  current := congrArg DocumentState.currentJob hdocument
  goes := by
    have hjobStatus : job.status = target := congrArg JobState.status hjob
    have hstatus : document.status = status := congrArg DocumentState.status hdocument
    rw [hjobStatus, hstatus]
    exact hgoes

/-- **A legal change of the status of the job** raises nothing, and the document follows. -/
theorem setJobStatus (h : Linked view jobId documentId job document) {target : AnalysisJobStatus}
    {errorCode errorMessage : Option String}
    {Ψ : β → Statuses Uuid Uuid → Statuses Uuid Uuid → Prop}
    {rest : Loaded AnalysisJob × Loaded Document → Session β}
    (hlegal : target ∈ jobTransitions job.status) (hne : target ≠ .processing)
    (hrest : ∀ (job' : AnalysisJob) (document' : Document), job'.status = target →
      Linked (view.move documentId jobId target
        (AnalysisJobLifecycle.documentStatusFor target false)) jobId documentId job' document' →
      Leads s₀ t (rest (⟨jobId, job'⟩, ⟨documentId, document'⟩)) base (view.move documentId jobId
        target (AnalysisJobLifecycle.documentStatusFor target false)) Ψ) :
    Leads s₀ t (AnalysisJobService.setJobStatus ⟨jobId, job⟩ ⟨documentId, document⟩ target errorCode
      errorMessage >>= rest) base view Ψ := by
  have htransition : jobTransition job.status target = pure target := by
    simp only [jobTransition, AnalysisJobLifecycle.transition_eq_some.mpr ⟨rfl, hlegal⟩]
  dsimp only [AnalysisJobService.setJobStatus]
  rw [htransition, Prog.pure_bind', Prog.bind_assoc']
  refine Leads.updateJobStatus h.job_view fun job' hjob' => ?_
  rw [if_pos h.current, Prog.bind_assoc']
  refine Leads.setDocumentStatus h.document_view
    (AnalysisJobLifecycle.documentStatusFor_mem h.goes hlegal hne false) fun document' hdocument' =>
      ?_
  rw [Prog.pure_bind', h.move_eq hjob' hdocument']
  refine hrest job' document' (congrArg JobState.status hjob') (of_move ?_ ?_ ?_)
  · rw [hjob', h.owner]
  · rw [hdocument', h.current]
  · exact AnalysisJobLifecycle.matches_documentStatusFor target false

end Linked

end SyncBack
