import Mathlib.Data.List.Sigma
import SyncBack.Services.DocumentService
import SyncBack.Services.SuggestionService
import SyncBack.Workers.AnalysisTasks

/-!
# The operations of the application

The operations of the API and of the worker that add and change documents, jobs and suggestions, with
their parameters, and the program that a process runs for each. A request has a session of its own,
which is closed at its end; the worker's tasks open theirs themselves. Not among them are the deletions,
which are with the operations on sources (`ProjectOperation`), and the start of the analyses of a whole
project, which is a program of its own.

Source: `app/api/v1/routers/*.py`, `app/workers/tasks/analysis_tasks.py`.
-/

namespace SyncBack

open Txn Session

/-- The operations. `delivery` of a worker task is the list of sources in the message that it was
delivered with; `none` lets the task run at any time. -/
inductive Operation where
  | upload (maxSizeBytes : ℕ) (projectId : Uuid) (file : Upload)
  | create (projectId documentId : Uuid) (idempotencyKey : Option String) (force : Bool)
  | start (projectId documentId : Uuid) (idempotencyKey : Option String) (force held : Bool)
      (run : EnqueueRun)
  | dispatch (jobId : Uuid) (run : EnqueueRun)
  | cancel (projectId documentId jobId : Uuid) (held : Bool)
  | processSource (delivery : Option (List Uuid)) (jobId sourceId : Uuid)
      (generation : GenerationRun)
  | finalize (delivery : Option (List Uuid)) (results : List SourceResult) (jobId : Uuid)
  | reviewSave (projectId documentId userId : Uuid) (reviewVersion : ℤ)
      (acceptedIds rejectedIds : List Uuid) (finalize : Bool) (exporting : Option ExportRun)
      (editedTexts : Uuid → Option Text)
  | finalizeReview (projectId documentId : Uuid) (exporting : Option ExportRun)
  | patch (projectId documentId userId : Uuid) (targetStatus : SuggestionStatus)
      (ids : Option (List Uuid)) (filter : Option PatchFilter)
  | resetSuggestion (projectId documentId suggestionId : Uuid)
  | resetAnalysis (projectId documentId : Uuid)

/-- The operations without their parameters. -/
inductive OperationKind where
  | upload
  | create
  | start
  | dispatch
  | cancel
  | processSource
  | finalize
  | reviewSave
  | finalizeReview
  | patch
  | resetSuggestion
  | resetAnalysis
  deriving DecidableEq

/-- No kind is on two lists that have nothing in common. -/
theorem OperationKind.elim_of_mem {l l' : List OperationKind} {kind : OperationKind} {p : Prop}
    (h : kind ∈ l) (h' : kind ∈ l') (hdisjoint : ∀ k ∈ l, k ∉ l') : p :=
  absurd h' (hdisjoint kind h)

namespace Session

/-- A request: one session, whose result goes to the client. -/
def request {α : Type} (body : Session α) : Session Unit := do
  let _ ← closing body
  pure ()

/-- Wait for the message that a task was delivered with. -/
def delivered (delivery : Option (List Uuid)) (jobId : Uuid) : Session Unit :=
  match delivery with
  | some sourceIds => await (.analysis jobId sourceIds)
  | none => pure ()

end Session

/-- `dispatch_job` of the job that is committed when the request comes. -/
def AnalysisJobService.dispatchCommitted (jobId : Uuid) (run : EnqueueRun) :
    Session (Loaded AnalysisJob) := do
  let found ← AnalysisJobRepository.getById jobId
  match found with
  | some job => AnalysisJobService.dispatchJob job none run
  | none => throw (.analysisJobNotFound s!"Задача {jobId} не найдена")

namespace Operation

/-- The kind of an operation. -/
def kind : Operation → OperationKind
  | upload .. => .upload
  | create .. => .create
  | start .. => .start
  | dispatch .. => .dispatch
  | cancel .. => .cancel
  | processSource .. => .processSource
  | finalize .. => .finalize
  | reviewSave .. => .reviewSave
  | finalizeReview .. => .finalizeReview
  | patch .. => .patch
  | resetSuggestion .. => .resetSuggestion
  | resetAnalysis .. => .resetAnalysis

/-- The program of a process that performs the operation. -/
def program : Operation → Session Unit
  | upload maxSizeBytes projectId file =>
      request (DocumentService.uploadDocument maxSizeBytes projectId file)
  | create projectId documentId idempotencyKey force =>
      request (AnalysisJobService.createJob projectId documentId idempotencyKey force)
  | start projectId documentId idempotencyKey force held run =>
      request (AnalysisJobService.startAnalysisJob projectId documentId idempotencyKey force held
        run)
  | dispatch jobId run => request (AnalysisJobService.dispatchCommitted jobId run)
  | cancel projectId documentId jobId held =>
      request (AnalysisJobService.cancelJob projectId documentId jobId held)
  | processSource delivery jobId sourceId generation => do
      delivered delivery jobId
      let _ ← AnalysisTasks.processSource jobId sourceId generation
      pure ()
  | finalize delivery results jobId => do
      delivered delivery jobId
      AnalysisTasks.finalize results jobId
  | reviewSave projectId documentId userId reviewVersion acceptedIds rejectedIds finalized exporting
      editedTexts =>
      request (SuggestionService.atomicReviewSave projectId documentId userId reviewVersion
        acceptedIds rejectedIds finalized exporting editedTexts)
  | finalizeReview projectId documentId exporting =>
      request (SuggestionService.finalizeReview projectId documentId exporting)
  | patch projectId documentId userId targetStatus ids filter =>
      request (SuggestionService.patchSuggestions projectId documentId userId targetStatus ids
        filter)
  | resetSuggestion projectId documentId suggestionId =>
      request (SuggestionService.resetSuggestion projectId documentId suggestionId)
  | resetAnalysis projectId documentId =>
      request (AnalysisJobService.resetAnalysis projectId documentId)

end Operation

/-- A configuration of the application. -/
abbrev AppConfig := Config Process Key Row Message DomainError Unit

/-- A start of a run: no transaction is open, and every process is about to perform an operation
of one of the given kinds. -/
structure AppConfig.Initial (kinds : OperationKind → Prop) (c : AppConfig) : Prop where
  quiet : ∀ k, c.db.dirty k = none
  procs : ∀ t p, c.procs t = some p → ∃ op : Operation, kinds op.kind ∧ p = op.program

/-! ## Concrete starts -/

/-- A database with the given committed rows and messages, and no open transaction. -/
def AppDb.ofRows (rows : List (Sigma Row)) (sent : List Message) : AppDb where
  committed k := rows.dlookup k
  dirty _ := none
  keys := rows.keys
  log := []
  drawn _ := 0
  clock := 0
  sent := sent
  support _ hk := ⟨List.dlookup_eq_none.mpr hk, rfl⟩

/-- The processes `0, 1, …` are about to perform the given operations. -/
def AppConfig.start (rows : List (Sigma Row)) (sent : List Message) (ops : List Operation) :
    AppConfig where
  db := AppDb.ofRows rows sent
  procs t := ops[t]?.map Operation.program

/-- A committed row of a start is one of the given rows. -/
theorem AppConfig.mem_rows_of_committed {rows : List (Sigma Row)} {sent : List Message}
    {ops : List Operation} {k : Key} {row : Row k}
    (h : (AppConfig.start rows sent ops).db.committed k = some row) : (⟨k, row⟩ : Sigma Row) ∈ rows :=
  List.of_mem_dlookup h

/-- A start of operations is an initial configuration. -/
theorem AppConfig.initial_start {kinds : OperationKind → Prop} {rows : List (Sigma Row)}
    {sent : List Message} {ops : List Operation} (h : ∀ op ∈ ops, kinds op.kind) :
    (AppConfig.start rows sent ops).Initial kinds where
  quiet _ := rfl
  procs t p hp := by
    obtain ⟨op, hop, rfl⟩ := Option.map_eq_some_iff.mp hp
    exact ⟨op, h op (List.mem_of_getElem? hop), rfl⟩

end SyncBack
