import SyncBack.Infrastructure.Exporters
import SyncBack.Services.SuggestionService

/-!
# Reviews with an export

`finalize_review` and `atomic_review_save` with the export service in full, in a world where calls
fail: `fails` says which of the calls raise. The export works in the transaction of the review, which
it commits itself.

The files are not modelled: they are read from the storage and stored there, and no row depends on
what they contain.

Source: `app/domain/services/suggestion_service.py`,
`app/domain/services/document_export_service.py`, `app/domain/services/document_events.py`,
`app/infrastructure/db/unit_of_work.py`.
-/

namespace SyncBack

open Txn Session

/-- The calls of a review that can raise, whatever the rows are. -/
inductive ReviewCall where
  | getDocument
  | incrementVersion
  | updateSuggestions
  | countPending
  | download
  | readChanges (page : ℕ)
  | applyChanges
  | upload
  | flushExportedKey
  | commitExport
  | flushStatus
  | commitReview
  /-- Reading the project whose owner is told about a new status. -/
  | readOwner
  | rollback
  deriving DecidableEq

/-- Which of the calls raise. -/
abbrev Failures : Type := ReviewCall → Bool

/-- The suggestions among the rows of an answer. -/
def SuggestionRepository.suggestions (rows : List (Sigma Row)) : List Suggestion :=
  rows.filterMap fun
    | ⟨.suggestion _, row⟩ => some row
    | _ => none

/-- The rows of a job that have a status. -/
def SuggestionRepository.ofJobAndStatus (jobId : Uuid) (status : SuggestionStatus) :
    (k : Key) → Row k → Bool
  | .suggestion _, row => row.analysisJobId = jobId && row.status = status
  | _, _ => false

/-- Rows come in order of insertion.
Source: `SuggestionRepository.list_by_analysis_job_and_status_page`. -/
def SuggestionRepository.listByAnalysisJobAndStatusPage (jobId : Uuid) (status : SuggestionStatus)
    (limit offset : ℕ) : Session (List Suggestion) := do
  let rows ← select (ofJobAndStatus jobId status)
  pure (((suggestions rows).drop offset).take limit)

namespace ReviewExports

variable (fails : Failures)

/-- A call, or the exception that it raises. -/
def attempt {α : Type} (call : ReviewCall) (e : DomainError) (body : Session α) : Session α :=
  if fails call = true then throw e else body

/-- `async with uow:` — an exception rolls the transaction back and goes on, unless the rollback
raises. Source: `SqlAlchemyUnitOfWork.__aexit__`. -/
def unitOfWork {α : Type} (body : Session α) : Session α :=
  Prog.tryCatch body fun e => do
    attempt fails .rollback .databaseFailure Session.rollback
    throw e

/-! ## The export -/

/-- Source: `_EXPORT_PAGE_SIZE`. -/
def exportPageSize : ℕ := 500

/-- The loop of `_iter_accepted_changes_pages` from a page on. `fuel` bounds the number of pages; it
does not run out if it exceeds the number of rows. -/
def readPages (jobId : Uuid) : ℕ → ℕ → Session (List AppliedChange)
  | 0, _ => throw (.runtimeError "")
  | fuel + 1, page => do
      let rows ← attempt fails (.readChanges page) .databaseFailure
        (SuggestionRepository.listByAnalysisJobAndStatusPage jobId .accepted exportPageSize
          (page * exportPageSize))
      if rows.length < exportPageSize then pure (rows.map Suggestion.toChange)
      else do
        let rest ← readPages jobId fuel (page + 1)
        pure (rows.map Suggestion.toChange ++ rest)

/-- Source: `DocumentExportService._iter_accepted_changes_pages`. -/
def iterAcceptedChangesPages (fuel : ℕ) (document : Loaded Document) :
    Session (List AppliedChange) :=
  match document.row.currentAnalysisJobId with
  | none => pure []
  | some jobId => readPages fails jobId fuel 0

/-- The result is the changes that were applied to the downloaded file.
Source: `DocumentExportService._apply_accepted_changes`. -/
def applyAcceptedChanges (fuel : ℕ) (document : Loaded Document) :
    Session (List AppliedChange) := do
  attempt fails .download .storageFailure (pure ())
  let changes ← unitOfWork fails (iterAcceptedChangesPages fails fuel document)
  attempt fails .applyChanges (.valueError "") (pure changes)

/-- Write the key of the exported file and commit what the transaction has done so far. -/
def saveExportedKey (document : Loaded Document) : Session (Loaded Document) :=
  unitOfWork fails do
    let document ← attempt fails .flushExportedKey .databaseFailure
      (DocumentRepository.updateExportedKey document (document.row.storageKey ++ ".exported"))
    attempt fails .commitExport .databaseFailure commit
    pure document

/-- Source: `DocumentExportService.export_and_save`. -/
def exportAndSave (fuel : ℕ) (document : Loaded Document) : Session (Loaded Document) := do
  let _ ← applyAcceptedChanges fails fuel document
  attempt fails .upload .storageFailure (pure ())
  saveExportedKey fails document

/-- Source: `SuggestionService._run_export`. -/
def runExport (fuel : ℕ) (document : Loaded Document) : Session (Loaded Document) :=
  Prog.tryCatch (exportAndSave fails fuel document) fun _ =>
    throw (.reviewNotComplete "Не удалось применить утверждённые правки к документу.")

/-- The export if a service for it was given. -/
def exportIfAsked (fuel : ℕ) (exporting : Bool) (document : Loaded Document) :
    Session (Loaded Document) :=
  if exporting = true then runExport fails fuel document else pure document

/-! ## The review -/

/-- The commit, and the events of the changes of status that it made, if somebody takes them.
Source: `SuggestionService._commit`, `DocumentEventOutbox.flush`. -/
def commitReview (publishing statusChanged : Bool) : Session Unit := do
  attempt fails .commitReview .databaseFailure commit
  if publishing && statusChanged then attempt fails .readOwner .databaseFailure (pure ())
  else pure ()

/-- The export and the new status. -/
def finish (fuel : ℕ) (exporting : Bool) (document : Loaded Document) (pendingCount : ℕ) :
    Session (Loaded Document) := do
  let document ← exportIfAsked fails fuel exporting document
  attempt fails .flushStatus .databaseFailure
    (SuggestionService.finishReview document pendingCount)

/-- Source: `SuggestionService.finalize_review`. -/
def finalizeReview (fuel : ℕ) (exporting publishing : Bool) (projectId documentId : Uuid) :
    Session (Loaded Document) :=
  unitOfWork fails do
    let document ← attempt fails .getDocument .databaseFailure
      (getDocumentOrRaise projectId documentId)
    SuggestionService.assertAwaitingApproval document
    let jobId ← SuggestionService.assertHasActiveJob document
    let pendingCount ← attempt fails .countPending .databaseFailure
      (SuggestionRepository.countByAnalysisJobAndStatus jobId .pending)
    if pendingCount = 0 then do
      let document ← finish fails fuel exporting document pendingCount
      commitReview fails publishing true
      pure document
    else throw (.reviewNotComplete
      s!"Нельзя завершить review: не рассмотрено предложений — {pendingCount}")

/-- The end of `atomic_review_save`, after the decisions. -/
def finishSave (fuel : ℕ) (exporting publishing : Bool) (acceptedIds rejectedIds : List Uuid)
    (finalize : Bool) (document : Loaded Document) (pendingCount : ℕ) :
    Session ReviewSaveResult := do
  let document ←
    (if finalize = true then
      if pendingCount = 0 then finish fails fuel exporting document pendingCount
      else throw (.reviewNotComplete
        s!"Нельзя завершить ревью: осталось правок — {pendingCount}")
    else pure document)
  commitReview fails publishing finalize
  pure
    { document, acceptedCount := acceptedIds.length, rejectedCount := rejectedIds.length
      pendingCount, finalized := finalize }

/-- Source: `SuggestionService.atomic_review_save`. -/
def atomicReviewSave (fuel : ℕ) (exporting publishing : Bool) (projectId documentId userId : Uuid)
    (reviewVersion : ℤ) (acceptedIds rejectedIds : List Uuid) (finalize : Bool)
    (editedTexts : Uuid → Option Text) : Session ReviewSaveResult :=
  unitOfWork fails do
    let document ← attempt fails .getDocument .databaseFailure
      (getDocumentOrRaise projectId documentId)
    SuggestionService.assertAwaitingApproval document
    let jobId ← SuggestionService.assertHasActiveJob document
    let decisions := SuggestionService.decisionsOf documentId userId jobId acceptedIds rejectedIds
      editedTexts
    let lockedDoc ← attempt fails .incrementVersion .databaseFailure
      (DocumentRepository.compareAndIncrementReviewVersion document reviewVersion)
    match lockedDoc with
    | none => throw .optimisticLock
    | some document => do
        let updated ← attempt fails .updateSuggestions .databaseFailure
          (SuggestionRepository.bulkUpdateStatus decisions)
        if updated = decisions.decisions.length then do
          let pendingCount ← attempt fails .countPending .databaseFailure
            (SuggestionRepository.countByAnalysisJobAndStatus jobId .pending)
          finishSave fails fuel exporting publishing acceptedIds rejectedIds finalize document
            pendingCount
        else throw (.suggestionAlreadyDecided
          "Часть правок не найдена в текущем анализе или уже обработана")

/-! ## Without failures -/

/-- **Where nothing fails and no export is asked for, this is `SuggestionService`.** -/
theorem atomicReviewSave_calm (fuel : ℕ) (publishing : Bool) (projectId documentId userId : Uuid)
    (reviewVersion : ℤ) (acceptedIds rejectedIds : List Uuid) (finalize : Bool)
    (editedTexts : Uuid → Option Text) :
    atomicReviewSave (fun _ => false) fuel false publishing projectId documentId userId
        reviewVersion acceptedIds rejectedIds finalize editedTexts =
      SuggestionService.atomicReviewSave projectId documentId userId reviewVersion acceptedIds
        rejectedIds finalize none editedTexts := by
  have hcommit : ∀ changed, commitReview (fun _ => false) publishing changed = commit := by
    intro changed
    unfold commitReview attempt
    cases publishing <;> cases changed <;> rfl
  unfold atomicReviewSave SuggestionService.atomicReviewSave SuggestionService.saveLoaded finishSave
    finish SuggestionService.finalizeSave
  simp only [hcommit]
  rfl

end ReviewExports

end SyncBack
